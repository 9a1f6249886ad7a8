import CCompletion.Proofs.Completion.Search
import CCompletion.Proofs.Harvest.TypeDefinition
import CCompletion.Service.Basic
import Mathlib

/-!
# Questions about a document

A request that asks about a document is answered with what is computed for this document, or refused since its
cursor is not in the text or its snippet has no template. It fails where variables are looked for behind a type
whose name is too long to be searched for, and in no other way. It leaves the service as it was.
-/

namespace CCompletion

/-- The number lies beyond the end of a text of so many units. -/
def Number.Exceeds (n : Number) (length : Nat) : Prop :=
  match n with
  | .finite q => (length : Rat) < q
  | .infinite negative => negative = false
  | .notANumber => False

namespace Service

variable {r : Request} {t : Text} {offset : Number} {entries : List (Text × Json)} {c : Candidate}

/-! ## Requests -/

/-- What can be asked about a document with a cursor. -/
inductive Topic where
  | offer
  | context
  | insertion (candidate : Candidate)

namespace Topic

def path : Topic → Text
  | offer => "/complete"
  | context => "/classify"
  | insertion _ => "/apply"

def question (t : Text) (offset : Number) : Topic → Question
  | offer => .complete t offset
  | context => .classify t offset
  | insertion candidate => .apply t offset candidate

end Topic

/-- A field of an object is there and converts to a value. -/
def Reads {α : Type} (entries : List (Text × Json)) (name : Text) (convert : Json → Option α) (a : α) : Prop :=
  ∃ v, Json.lookup? name entries = some v ∧ convert v = some a

structure GivesDocument (entries : List (Text × Json)) (t : Text) (offset : Number) : Prop where
  readsText : Reads entries "text" text? t
  readsOffset : Reads entries "offset" integer? offset
  notNegative : isNegative offset = false

structure GivesCandidate (entries : List (Text × Json)) (c : Candidate) : Prop where
  readsKind : Reads entries "kind" text? c.kind.name
  readsText : Reads entries "text" text? c.text
  notEmpty : c.text ≠ []

/-- A request in the right form that asks about a document. -/
structure Request.Asks (r : Request) (topic : Topic) (t : Text) (offset : Number) : Prop where
  method : r.method = "POST"
  path : (Url.ofTarget r.target).path = topic.path
  body : ∃ entries, r.value = .ok (.object entries) ∧ GivesDocument entries t offset ∧
    ∀ c, topic = .insertion c →
      ∃ fields, Json.lookup? "candidate" entries = some (.object fields) ∧ GivesCandidate fields c

theorem Reads.isSome {α : Type} {name : Text} {convert : Json → Option α} {a : α}
    (h : Reads entries name convert a) : (Json.lookup? name entries).isSome = true := by
  obtain ⟨v, hv, _⟩ := h
  rw [hv]
  rfl

theorem Reads.value {α : Type} {name : Text} {convert : Json → Option α} {a : α}
    (h : Reads entries name convert a) : convert (Service.value entries name) = some a := by
  obtain ⟨v, hv, hconvert⟩ := h
  rw [Service.value, hv]
  exact hconvert

theorem requireFields_eq_ok (place : Text) {names : List Text}
    (h : ∀ name ∈ names, (Json.lookup? name entries).isSome = true) : requireFields place entries names = .ok () := by
  induction names with
  | nil => rfl
  | cons name names ih =>
    rw [requireFields, if_pos (h name List.mem_cons_self)]
    exact ih fun other hother => h other (List.mem_cons_of_mem name hother)

theorem textAt_eq_ok (place : Text) {v : Json} (h : text? v = some t) : textAt place v = .ok t := by
  rw [textAt, h]

theorem documentOf_eq_ok (h : GivesDocument entries t offset) (fields : List Text)
    (hfields : ∀ name ∈ fields, (Json.lookup? name entries).isSome = true) :
    documentOf (.object entries) fields = .ok (t, offset, entries) := by
  have hoffset : offsetAt "body/offset" (value entries "offset") = .ok offset := by
    rw [offsetAt, h.readsOffset.value]
    exact if_neg (by rw [h.notNegative]; decide)
  rw [documentOf, entriesAt]
  simp only [bind, Except.bind, requireFields_eq_ok _ hfields, textAt_eq_ok _ h.readsText.value, hoffset]
  rfl

theorem ofName?_name (k : Kind) : Kind.ofName? k.name = some k := by cases k <;> decide

theorem candidateAt_eq_ok (place : Text) (h : GivesCandidate entries c) :
    candidateAt place (.object entries) = .ok c := by
  have hfields : requireFields place entries ["kind", "text"] = .ok () :=
    requireFields_eq_ok place (by simp [h.readsKind.isSome, h.readsText.isSome])
  have hkind : kindAt (place ++ "/kind") (value entries "kind") = .ok c.kind := by
    rw [kindAt, textAt_eq_ok _ h.readsKind.value]
    simp only [bind, Except.bind, ofName?_name]
    rfl
  have htext : filledTextAt (place ++ "/text") (value entries "text") = .ok c.text := by
    rw [filledTextAt, textAt_eq_ok _ h.readsText.value]
    exact if_neg h.notEmpty
  rw [candidateAt, entriesAt]
  simp only [bind, Except.bind, hfields, hkind, htext]
  rfl

theorem bodyValue_eq_ok {body : Text} {v : Json} (hmark : body.head? ≠ some byteOrderMark)
    (hparse : Json.ofText? body = some v) (hprototype : namesPrototype v = false) : bodyValue body = .ok v := by
  rw [bodyValue, if_neg hmark, hparse]
  exact if_neg (by rw [hprototype]; decide)

theorem value_of_body {body : Text} (hquery : r.isQuery = false) (hbody : r.body = some body) (hne : body ≠ [])
    (hsize : body.toBytes.length ≤ bodyLimit) : r.value = bodyValue body := by
  rw [Request.value, if_neg (by rw [hquery]; decide), hbody]
  cases body with
  | nil => exact absurd rfl hne
  | cons u rest => exact if_neg (Nat.not_lt.mpr hsize)

theorem ofRequest_eq {body : Json} {call : Call} (hvalue : r.value = .ok body)
    (hroute : route? r (Url.ofTarget r.target) body = some (.ok call)) : Call.ofRequest r = .ok call := by
  rw [Call.ofRequest, hvalue]
  simp only [bind, Except.bind, hroute]
  rfl

theorem ofRequest_of_asks {topic : Topic} (h : r.Asks topic t offset) :
    Call.ofRequest r = .ok (.ask (topic.question t offset)) := by
  obtain ⟨hmethod, hpath, entries, hvalue, hdocument, hcandidate⟩ := h
  have hquery : r.isQuery = false := by
    rw [Request.isQuery, hmethod]
    decide
  have htext := hdocument.readsText.isSome
  have hoffset := hdocument.readsOffset.isSome
  refine ofRequest_eq hvalue ?_
  rw [route?, if_neg (by rw [hquery]; decide), if_neg (by rw [hmethod]; decide), hpath]
  cases topic with
  | offer =>
    have hread := documentOf_eq_ok hdocument ["text", "offset"] (by simp [htext, hoffset])
    rw [Topic.path, if_neg (by decide), if_pos rfl, completeCall, hread]
    rfl
  | context =>
    have hread := documentOf_eq_ok hdocument ["text", "offset"] (by simp [htext, hoffset])
    rw [Topic.path, if_neg (by decide), if_neg (by decide), if_pos rfl, classifyCall, hread]
    rfl
  | insertion c =>
    obtain ⟨fields, hfields, hgives⟩ := hcandidate c rfl
    have hread := documentOf_eq_ok hdocument ["text", "offset", "candidate"]
      (by simp [htext, hoffset, hfields])
    have hvalue : value entries "candidate" = .object fields := by rw [value, hfields]; rfl
    rw [Topic.path, if_neg (by decide), if_neg (by decide), if_neg (by decide), if_pos rfl, applyCall, hread]
    simp only [bind, Except.bind, hvalue, candidateAt_eq_ok _ hgives]
    rfl

/-! ## Answers -/

/-- The types that variables are looked for behind, beside the builtin ones. -/
def typesAt (s : Service) (t : Text) (k : Nat) : List Text := Harvest.typeNames (t.take k) ++ s.table.symbols.types

/-- The replies to a question about a document. -/
inductive Answers (s : Service) (t : Text) (offset : Number) : Topic → Reply → Prop
  | offered {k : Nat} {o : Offer} : k ≤ t.length → offset = .finite k →
      (seeksVariables t k → Harvest.Searchable (s.typesAt t k)) →
      offer s.table.symbols s.options t offset = .ok o →
      classify t offset = .ok o.context → o.typed = wordBefore t k →
      Answers s t offset .offer ⟨200, .object [("context", .string o.context.name), ("prefix", .string o.typed),
        ("candidates", .array (o.candidates.map fun c =>
          .object [("kind", .string c.kind.name), ("text", .string c.text)]))]⟩
  | classified {context : Context} : t.HasCursor offset → classify t offset = .ok context →
      Answers s t offset .context ⟨200, .object [("context", .string context.name)]⟩
  | inserted {c : Candidate} {i : Inserted} : t.HasCursor offset → c.IsKnown → c.insert t offset = .ok i →
      Answers s t offset (.insertion c)
        ⟨200, .object [("newText", .string i.text), ("newCursorOffset", .number (.ofNat i.cursor))]⟩
  | outside {topic : Topic} : ¬t.HasCursor offset →
      Answers s t offset topic ⟨400, .object [("error", .string (Refusal.cursorOutside offset t.length).message)]⟩
  | unknown {c : Candidate} : t.HasCursor offset → ¬c.IsKnown →
      Answers s t offset (.insertion c) ⟨400, .object [("error", .string (Refusal.unknownSnippet c.text).message)]⟩
  | tooLong {k : Nat} : k ≤ t.length → offset = .finite k → seeksVariables t k →
      ¬Harvest.Searchable (s.typesAt t k) →
      Answers s t offset .offer ⟨500, .object [("error", .string "Internal Server Error")]⟩

theorem ask_of_not_hasCursor (s : Service) (topic : Topic) (h : ¬t.HasCursor offset) :
    (s.ask (topic.question t offset)).reply = .refused (Refusal.cursorOutside offset t.length).message := by
  have hcursor := cursorIn_eq_error_iff.mpr ⟨rfl, h⟩
  cases topic with
  | offer => rw [Topic.question, ask, complete, complete_of_not_hasCursor h]; rfl
  | context => rw [Topic.question, ask, CCompletion.classify, hcursor]; rfl
  | insertion c => rw [Topic.question, ask, Candidate.insert, hcursor]; rfl

theorem answers_offer (s : Service) {k : Nat} (hk : k ≤ t.length) :
    s.Answers t (.finite k) .offer (s.ask (.complete t (.finite k))).reply := by
  by_cases hsearch : seeksVariables t k → Harvest.Searchable (s.typesAt t k)
  · obtain ⟨pool, hpool, _⟩ := Offer.exists_pool s.table.symbols (Context.atCursor t k) (t.take k)
    have hoffer := offer_eq hk hpool s.options
    rw [ask, complete, complete_of_searchable hk hsearch, hoffer]
    exact .offered hk rfl hsearch hoffer (classify_finite hk) rfl
  · obtain ⟨hseeks, hlong⟩ := Classical.not_imp.mp hsearch
    rw [ask, complete, complete_of_not_searchable hk hseeks hlong]
    exact .tooLong hk rfl hseeks hlong

theorem answers_insertion (s : Service) (hcursor : t.HasCursor offset) (c : Candidate) :
    s.Answers t offset (.insertion c) (s.ask (.apply t offset c)).reply := by
  by_cases hknown : c.IsKnown
  · obtain ⟨i, hi⟩ := c.exists_insert hcursor hknown
    rw [ask, hi]
    exact .inserted hcursor hknown hi
  · rw [ask, c.insert_eq_error_iff.mpr (.inr ⟨hcursor, hknown, rfl⟩)]
    exact .unknown hcursor hknown

theorem answers_ask (s : Service) (t : Text) (offset : Number) (topic : Topic) :
    s.Answers t offset topic (s.ask (topic.question t offset)).reply := by
  by_cases hcursor : t.HasCursor offset
  · cases topic with
    | offer =>
      obtain ⟨k, hk, rfl⟩ := hcursor
      exact answers_offer s hk
    | context =>
      obtain ⟨k, hk, rfl⟩ := hcursor
      rw [Topic.question, ask, classify_finite hk]
      exact .classified ⟨k, hk, rfl⟩ (classify_finite hk)
    | insertion c => exact answers_insertion s hcursor c
  · rw [ask_of_not_hasCursor s topic hcursor]
    exact .outside hcursor

namespace Answers

variable {s : Service} {topic : Topic} {reply : Reply}

/-- Bad requests name a place outside of the text, or a snippet that is not in the table. -/
theorem status_eq_bad_iff (h : s.Answers t offset topic reply) :
    reply.status = 400 ↔ ¬t.HasCursor offset ∨ ∃ c, topic = .insertion c ∧ ¬c.IsKnown := by
  cases h with
  | @offered k _ hk hoffset => exact iff_of_false (by simp) (by simp [Text.HasCursor, hoffset, hk])
  | classified hcursor => exact iff_of_false (by simp) (by simp [hcursor])
  | @inserted c _ hcursor hknown => exact iff_of_false (by simp) (by simp [hcursor, hknown])
  | outside hnone => exact iff_of_true rfl (.inl hnone)
  | @unknown c _ hunknown => exact iff_of_true rfl (.inr ⟨c, rfl, hunknown⟩)
  | @tooLong k hk hoffset => exact iff_of_false (by simp) (by simp [Text.HasCursor, hoffset, hk])

/-- All that makes a request fail are types that are too long. -/
theorem status_eq_failed_iff (h : s.Answers t offset topic reply) :
    reply.status = 500 ↔
      topic = .offer ∧ ∃ k : Nat, k ≤ t.length ∧ offset = .finite k ∧ seeksVariables t k ∧
        ¬Harvest.Searchable (s.typesAt t k) := by
  cases h with
  | @offered k o hk hoffset hsearch =>
    refine iff_of_false (by simp) ?_
    rintro ⟨_, k', _, hoffset', hseeks, hlong⟩
    obtain rfl : k = k' := Rat.natCast_inj.mp (Number.finite.inj (hoffset.symm.trans hoffset'))
    exact hlong (hsearch hseeks)
  | classified => exact iff_of_false (by simp) (by simp)
  | inserted => exact iff_of_false (by simp) (by simp)
  | outside hnone =>
    refine iff_of_false (by simp) ?_
    rintro ⟨_, k, hk, hoffset, _⟩
    exact hnone ⟨k, hk, hoffset⟩
  | unknown => exact iff_of_false (by simp) (by simp)
  | @tooLong k hk hoffset hseeks hlong => exact iff_of_true rfl ⟨rfl, k, hk, hoffset, hseeks, hlong⟩

end Answers

/-! ## Offsets -/

theorem integerOfText?_eq_some {n : Number} (h : integerOfText? t = some n) :
    (∃ i : Int, n = .finite i) ∨ ∃ negative, n = .infinite negative := by
  rw [integerOfText?] at h
  split at h
  · cases h
  · split at h
    · split at h
      · rename_i q _ hden
        exact .inl ⟨q.num, by rw [← Option.some.inj h, Rat.coe_int_num_of_den_eq_one hden]⟩
      · cases h
    · rename_i negative _
      exact .inr ⟨negative, (Option.some.inj h).symm⟩
    · cases h

/-- What a request gives as an integer is one, or an infinity that was written as a text. -/
theorem integer?_eq_some {v : Json} {n : Number} (h : integer? v = some n) :
    (∃ i : Int, n = .finite i) ∨ ∃ negative, n = .infinite negative := by
  rw [integer?] at h
  split at h
  · split at h
    · rename_i hsome
      obtain ⟨i, hi⟩ := Option.isSome_iff_exists.mp hsome
      exact .inl ⟨i, by rw [← Option.some.inj h, Number.eq_of_toInt? hi]⟩
    · cases h
  · rename_i b _
    refine .inl ⟨if b then 1 else 0, ?_⟩
    rw [← Option.some.inj h]
    cases b <;> exact Number.ofInt_of_le (by decide)
  · refine .inl ⟨0, ?_⟩
    rw [← Option.some.inj h]
    exact Number.ofInt_of_le (by decide)
  · exact integerOfText?_eq_some h
  · cases h

theorem GivesDocument.offset_eq (h : GivesDocument entries t offset) :
    (∃ k : Nat, offset = .finite k) ∨ offset = .infinite false := by
  obtain ⟨v, _, hv⟩ := h.readsOffset
  have hnotNegative := h.notNegative
  obtain ⟨i, rfl⟩ | ⟨negative, rfl⟩ := integer?_eq_some hv
  · have hnonneg : 0 ≤ i := Rat.intCast_nonneg.mp (Rat.not_lt.mp (of_decide_eq_false hnotNegative))
    obtain ⟨k, rfl⟩ := Int.eq_ofNat_of_zero_le hnonneg
    exact .inl ⟨k, congrArg Number.finite (Rat.intCast_natCast k)⟩
  · exact .inr (congrArg Number.infinite hnotNegative)

/-- An offset of a request is in the text if it is not beyond its end. -/
theorem hasCursor_iff (h : GivesDocument entries t offset) : t.HasCursor offset ↔ ¬offset.Exceeds t.length := by
  obtain ⟨k, rfl⟩ | rfl := h.offset_eq
  · rw [Number.Exceeds, Rat.natCast_lt_natCast, Nat.not_lt]
    constructor
    · rintro ⟨k', hk', heq⟩
      rwa [Rat.natCast_inj.mp (Number.finite.inj heq)]
    · exact fun hk => ⟨k, hk, rfl⟩
  · refine iff_of_false ?_ fun hexceeds => hexceeds rfl
    rintro ⟨k, _, heq⟩
    cases heq

/-! ## Every answer -/

/-- A request in the right form about a document changes nothing. It is answered with what is computed for the document;
or it is refused, which it is just when the offset is beyond the end of the text or the snippet is not in the table; or
it fails, which it does just when variables are looked for behind types that are too long. So it never fails where
each type has at most as many units as can be searched for. -/
theorem answer_of_asks (s : Service) {topic : Topic} (h : r.Asks topic t offset) :
    (s.answer r).1 = s ∧ s.Answers t offset topic (s.answer r).2.reply ∧
    ((s.answer r).2.reply.status = 400 ↔
      offset.Exceeds t.length ∨ ∃ c, topic = .insertion c ∧ ¬c.IsKnown) ∧
    ((s.answer r).2.reply.status = 500 ↔
      topic = .offer ∧ ∃ k : Nat, k ≤ t.length ∧ offset = .finite k ∧ seeksVariables t k ∧
        ¬Harvest.Searchable (s.typesAt t k)) ∧
    ((∀ k, ∀ type ∈ s.typesAt t k, type.length ≤ Text.pieceLimit) → (s.answer r).2.reply.status ≠ 500) := by
  obtain ⟨entries, _, hdocument, _⟩ := h.body
  have hanswer : s.answer r = (s, s.ask (topic.question t offset)) := by
    rw [answer, ofRequest_of_asks h]
    rfl
  rw [hanswer]
  have hanswers := s.answers_ask t offset topic
  refine ⟨rfl, hanswers, ?_, hanswers.status_eq_failed_iff, fun hshort hfailed => ?_⟩
  · rw [hanswers.status_eq_bad_iff, hasCursor_iff hdocument, not_not]
  · obtain ⟨_, k, _, _, _, hlong⟩ := hanswers.status_eq_failed_iff.mp hfailed
    exact hlong (Harvest.searchable_of_length_le (hshort k))

theorem answer_of_asks_unknown_snippet :
    (answer ⟨[], ⟨fun _ => (none, []), fun _ => none⟩, {}, {}⟩
      ⟨"POST", "/apply", some (Text.ofString
        "\x7b\"text\":\"x\",\"offset\":\"1\",\"candidate\":\x7b\"kind\":\"snippet\",\"text\":\"o\"\x7d\x7d")⟩).2.reply.status
      = 400 := by
  refine (answer_of_asks _ (?_ : Request.Asks _ (.insertion ⟨.snippet, "o"⟩) "x" (.finite (1 : Nat)))).2.2.1.mpr
    (.inr ⟨_, rfl, by decide⟩)
  -- the offset is a text here, which is converted
  refine ⟨rfl, by cbv, [("text", .string "x"), ("offset", .string "1"),
    ("candidate", .object [("kind", .string "snippet"), ("text", .string "o")])], ?_, ?_, ?_⟩
  · rw [value_of_body (by decide) rfl (by decide) (by cbv)]
    exact bodyValue_eq_ok (by decide) (by cbv) (by cbv)
  · exact ⟨⟨.string "x", by cbv, rfl⟩, ⟨.string "1", by cbv, by cbv⟩, by decide⟩
  · intro c htopic
    obtain rfl := Topic.insertion.inj htopic
    exact ⟨_, by cbv, ⟨.string "snippet", by cbv, rfl⟩, ⟨.string "o", by cbv, rfl⟩, by decide⟩

/-! ## A type that is too long -/

/-- A scan of one file that holds an empty structure finds the name of the structure. -/
theorem types_scan_emptyStruct {name : Text} (hname : name.isIdentifier = true) (hfree : unit 'y' ∉ name) :
    (scan ⟨[], ⟨fun _ => (some [Text.ofString "a.h"], []), fun _ => some (Harvest.emptyStruct name)⟩, {}, {}⟩
      []).1.table.symbols.types = [name] := by
  have hsorted : Text.sorted [Text.ofString "a.h"] = [Text.ofString "a.h"] := List.mergeSort_singleton _
  simp only [scan, Draft.ofSource, Option.getD_some, hsorted, List.foldl_cons, List.foldl_nil, Draft.addFile,
    SymbolTable.harvest, SymbolTable.symbols, Draft.start, Harvest.typeNames_emptyStruct hname hfree,
    SymbolTable.insertNew, List.not_mem_nil, if_false, List.nil_append]

/-- A name of so many units. -/
def longName (length : Nat) : Text := List.replicate length (unit 'T')

theorem isIdentifier_longName (n : Nat) : (longName (n + 1)).isIdentifier = true := by
  have hall : ∀ u ∈ List.replicate n (unit 'T'), isIdentifierUnit u = true := fun u hu => List.eq_of_mem_replicate hu ▸ rfl
  rw [longName, List.replicate_succ, Text.isIdentifier, List.all_eq_true.mpr hall]
  rfl

theorem notMem_longName (n : Nat) : unit 'y' ∉ longName n :=
  fun h => absurd (List.eq_of_mem_replicate h) (by decide)

/-- A type name that is too long by one unit is too long beside the builtin types. -/
theorem not_searchable_longName : ¬Harvest.Searchable [longName (Text.pieceLimit + 1)] := by
  have hbuiltin : Text.behind (unit 'T') Vocabulary.builtinTypes = [] := by decide
  refine Harvest.not_searchable_of_few List.mem_cons_self ?_ (Nat.le_of_eq List.length_replicate.symm)
  rw [Text.behind, List.filterMap_append, ← Text.behind, hbuiltin, List.nil_append]
  exact Nat.le_trans (List.length_filterMap_le _ _) (Nat.le_succ 1)

/-- A project with one type name of 32768 units cannot be asked for an offer. -/
theorem answer_longType :
    let source : ProjectSource :=
      ⟨fun _ => (some [Text.ofString "a.h"], []), fun _ => some (Harvest.emptyStruct (longName 32768))⟩
    let s : Service := (scan ⟨[], source, {}, {}⟩ []).1
    let r : Request := ⟨"POST", "/complete", some (Text.ofString "\x7b\"text\":\"zq\",\"offset\":\"2\"\x7d")⟩
    r.Asks .offer "zq" (.finite (2 : Nat)) ∧
      (s.answer r).2.reply = ⟨500, .object [("error", .string "Internal Server Error")]⟩ := by
  intro source s r
  have hasks : r.Asks .offer "zq" (.finite (2 : Nat)) := by
    refine ⟨rfl, by cbv, [("text", .string "zq"), ("offset", .string "2")], ?_, ?_, nofun⟩
    · rw [value_of_body (by decide) rfl (by decide) (by cbv)]
      exact bodyValue_eq_ok (by decide) (by cbv) (by cbv)
    · exact ⟨⟨.string "zq", by cbv, rfl⟩, ⟨.string "2", by cbv, by cbv⟩, by decide⟩
  have htypes : s.table.symbols.types = [longName (Text.pieceLimit + 1)] :=
    types_scan_emptyStruct (isIdentifier_longName _) (notMem_longName _)
  have hbefore : Harvest.typeNames ((Text.ofString "zq").take 2) = [] := by decide +kernel
  have hlong : ¬Harvest.Searchable (s.typesAt "zq" 2) := by
    rw [typesAt, hbefore, htypes]
    exact not_searchable_longName
  refine ⟨hasks, ?_⟩
  rw [answer, ofRequest_of_asks hasks]
  show (s.ask (.complete "zq" (.finite (2 : Nat)))).reply = _
  rw [ask, complete, complete_of_not_searchable (by decide) (by decide +kernel) hlong]
  rfl

end Service
end CCompletion
