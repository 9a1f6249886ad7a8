import CCompletion.Proofs.Source.Reading
import CCompletion.Source.Context

/-!
# The context of a cursor in a plain text

Whether the cursor stands in a string or in a comment is found out without the automaton: by counting quotes,
and by searching for the last opening of a comment. In a plain text both ways agree at every offset.
-/

namespace CCompletion

variable {r s next : Region} {u v a b : CodeUnit} {t rest : Text} {i : Nat} {escaped : Bool}
  {x : Reading} {readings : List Reading}

/-! ## Plain texts -/

/-- What a plain text must obey at an offset. -/
@[mk_iff]
structure PlainAt (t : Text) (readings : List Reading) (i : Nat) : Prop where
  /-- No quote behind a backslash opens or closes a string. -/
  unescaped : Text.StandsAt "\\\"" t i →
    readings[i + 1]? ≠ some ⟨.code, false⟩ ∧ readings[i + 1]? ≠ some ⟨.literal .double, false⟩
  /-- No double quote stands in a comment or in a character literal. -/
  quote : t[i]? = some (unit '"') → ∀ x ∈ readings[i]?, x.region = .code ∨ x.region = .literal .double
  /-- A slash and a star open a comment. -/
  slashStar : Text.StandsAt "/*" t i → readings[i]? = some ⟨.code, false⟩
  /-- Two slashes open a comment, or else the second is part of a line comment. -/
  slashes : Text.StandsAt "//" t i →
    readings[i]? = some ⟨.code, false⟩ ∨ readings[i + 1]? = some ⟨.lineComment, false⟩
  /-- No newline ends a string. -/
  newline : t[i]? = some newline → readings[i]? ≠ some ⟨.literal .double, false⟩

instance (t : Text) (readings : List Reading) (i : Nat) : Decidable (PlainAt t readings i) :=
  decidable_of_iff _ (plainAt_iff t readings i).symm

/-- A text that is plain when the automaton starts it in a region. -/
def Region.PlainFrom (r : Region) (t : Text) : Prop := ∀ i < t.length, PlainAt t (r.readings t) i

instance (r : Region) (t : Text) : Decidable (r.PlainFrom t) :=
  inferInstanceAs (Decidable (∀ i < t.length, PlainAt t (r.readings t) i))

/-- A text of code whose strings and comments can be told by their delimiters alone. -/
def Plain (t : Text) : Prop := Region.code.PlainFrom t

instance (t : Text) : Decidable (Plain t) := inferInstanceAs (Decidable (Region.code.PlainFrom t))

theorem PlainAt.tail (h : PlainAt (u :: t) (x :: readings) (i + 1)) : PlainAt t readings i :=
  ⟨h.unescaped, h.quote, h.slashStar, h.slashes, h.newline⟩

theorem PlainAt.take {k : Nat} (h : PlainAt t readings i) (hi : i < k) :
    PlainAt (t.take k) (readings.take k) i := by
  have hsame : (readings.take k)[i]? = readings[i]? := List.getElem?_take_of_lt hi
  have hunit : (t.take k)[i]? = t[i]? := List.getElem?_take_of_lt hi
  -- A pair that stands in the part before the cut is whole there.
  have hnext : ∀ {a b : CodeUnit}, Text.StandsAt [a, b] (t.take k) i →
      Text.StandsAt [a, b] t i ∧ (readings.take k)[i + 1]? = readings[i + 1]? := by
    intro a b hstands
    obtain ⟨hstands, hlength⟩ := Text.standsAt_take.mp hstands
    have htwo : 2 ≤ k - i := hlength
    exact ⟨hstands, List.getElem?_take_of_lt (by omega)⟩
  constructor
  · intro hstands
    obtain ⟨hstands, hsecond⟩ := hnext hstands
    rw [hsecond]
    exact h.unescaped hstands
  · rw [hunit, hsame]
    exact h.quote
  · intro hstands
    rw [hsame]
    exact h.slashStar (hnext hstands).1
  · intro hstands
    obtain ⟨hstands, hsecond⟩ := hnext hstands
    rw [hsame, hsecond]
    exact h.slashes hstands
  · rw [hunit, hsame]
    exact h.newline

namespace Region

theorem PlainFrom.take (h : r.PlainFrom t) (k : Nat) : r.PlainFrom (t.take k) := by
  intro i hi
  rw [List.length_take] at hi
  rw [readings_take]
  exact (h i (by omega)).take (by omega)

theorem PlainFrom.of_readsAlone (h : r.PlainFrom (u :: rest)) (halone : r.ReadsAlone u rest) :
    (r.single u).2.PlainFrom rest := by
  intro i hi
  have hplain := h (i + 1) (Nat.succ_lt_succ hi)
  rw [readings_of_readsAlone halone] at hplain
  exact hplain.tail

theorem PlainFrom.of_pair (h : r.PlainFrom (u :: v :: rest)) (hpair : r.pair? u v = some (a, b, next)) :
    next.PlainFrom rest := by
  intro i hi
  have hplain := h (i + 2) (Nat.succ_lt_succ (Nat.succ_lt_succ hi))
  rw [readings_of_pair hpair] at hplain
  exact hplain.tail.tail

/-! ## Strings -/

theorem getElem?_readings_zero (r : Region) (u : CodeUnit) (rest : Text) :
    (r.readings (u :: rest))[0]? = some ⟨r, false⟩ := by
  cases rest with
  | nil => rfl
  | cons v rest =>
    rw [readings]
    split <;> rfl

/-- In a plain text, no backslash stands before a quote that is read alone or first. -/
theorem PlainFrom.not_escaped (h : s.PlainFrom rest) (hu : PlainAt (u :: rest) (x :: s.readings rest) 0)
    (hhead : rest.head? = some (unit '"')) : (u == unit '\\') = false := by
  obtain ⟨rest, rfl⟩ := List.head?_eq_some_iff.mp hhead
  have hread := getElem?_readings_zero s (unit '"') rest
  have hregion := (h 0 (Nat.zero_lt_succ _)).quote rfl _ hread
  rw [beq_eq_false_iff_ne]
  rintro rfl
  obtain ⟨hcode, hstring⟩ := hu.unescaped (Text.standsAt_pair.mpr ⟨rfl, rfl⟩)
  rcases hregion with rfl | rfl
  · exact hcode hread
  · exact hstring hread

/-- Reading one unit keeps the parity of the quotes and the automaton together. -/
theorem quote_single (h : PlainAt (u :: rest) (⟨r, false⟩ :: readings) 0)
    (hescaped : u = unit '"' → escaped = false) :
    (if u = unit '"' ∧ !escaped then !decide (r = .literal .double) else decide (r = .literal .double)) =
      decide ((r.single u).2 = .literal .double) := by
  by_cases hu : u = unit '"'
  · -- A quote opens a string in code and closes it in a string; a plain text has it nowhere else.
    subst hu
    have hregion : r = .code ∨ r = .literal .double := h.quote rfl _ rfl
    rw [hescaped rfl]
    rcases hregion with rfl | rfl <;> decide
  · rw [if_neg fun h => hu h.1]
    cases r with
    | code =>
      have hdouble : u ≠ Quote.double.unit := hu
      rw [single, if_neg hdouble]
      split <;> rfl
    | lineComment =>
      rw [single]
      split <;> rfl
    | blockComment => rfl
    | literal q =>
      cases q with
      | double =>
        -- A newline would end the string without a quote.
        have hnewline : u ≠ newline := by
          rintro rfl
          exact h.newline rfl rfl
        rw [single, if_neg fun h => h.elim hu hnewline]
      | single =>
        rw [single]
        split <;> rfl

/-- No quote counts in a pair, and a pair neither opens nor closes a string. -/
theorem quoteOpen_of_pair (hpair : r.pair? u v = some (a, b, next)) (escaped : Bool) (rest : Text) :
    Context.quoteOpen escaped (decide (r = .literal .double)) (u :: v :: rest) =
      Context.quoteOpen (v == unit '\\') (decide (next = .literal .double)) rest := by
  rw [Context.quoteOpen, Context.quoteOpen]
  obtain ⟨rfl, rfl, rfl, _, _, rfl⟩ | ⟨rfl, rfl, rfl, _, _, rfl⟩ | ⟨rfl, rfl, rfl, _, _, rfl⟩ |
    ⟨q, rfl, rfl, _, _, rfl⟩ := pair_cases hpair
  · rfl
  · rfl
  · rfl
  · have hprotected : ¬(v = unit '"' ∧ !(unit '\\' == unit '\\')) := by simp
    have hbackslash : ¬(unit '\\' = unit '"' ∧ !escaped) := fun h => absurd h.1 (by decide)
    rw [if_neg hprotected, if_neg hbackslash]

/-- The quotes before the cursor are odd in number just when the automaton is in a string there. -/
theorem quoteOpen_eq (h : r.PlainFrom t) (hescaped : t.head? = some (unit '"') → escaped = false) :
    Context.quoteOpen escaped (decide (r = .literal .double)) t = decide (r.after t = .literal .double) := by
  -- Along the automaton: `escaped` tells of the unit before, which may be the second of a pair.
  fun_induction after r t generalizing escaped with
  | case1 r => rfl
  | case2 r u => exact quote_single (h 0 (Nat.zero_lt_succ _)) fun hu => hescaped (congrArg some hu)
  | case3 r u v rest a b next hpair ih =>
    have hrest : next.PlainFrom rest := h.of_pair hpair
    have hplain := h 1 (Nat.succ_lt_succ (Nat.zero_lt_succ _))
    rw [readings_of_pair hpair] at hplain
    rw [quoteOpen_of_pair hpair]
    exact ih hrest (hrest.not_escaped hplain.tail)
  | case4 r u v rest hnone ih =>
    have halone : r.ReadsAlone u (v :: rest) := fun w hw => Option.some.inj hw ▸ hnone
    have hrest : (r.single u).2.PlainFrom (v :: rest) := h.of_readsAlone halone
    have hplain := h 0 (Nat.zero_lt_succ _)
    rw [readings_of_readsAlone halone] at hplain
    rw [Context.quoteOpen, quote_single hplain fun hu => hescaped (congrArg some hu)]
    exact ih hrest (hrest.not_escaped hplain)

end Region

/-! ## Comments -/

namespace Context

theorem lineCommentOpen_eq_true_iff :
    lineCommentOpen t = true ↔ ∃ i, Text.lastIndexOf? "//" t = some i ∧ newline ∉ t.drop i := by
  rw [lineCommentOpen]
  split
  · rename_i i hlast
    simp [hlast]
  · rename_i hlast
    simp [hlast]

theorem blockCommentOpen_eq_true_iff :
    blockCommentOpen t = true ↔
      ∃ i, Text.lastIndexOf? "/*" t = some i ∧ ∀ j ≥ i + 2, ¬Text.StandsAt "*/" t j := by
  rw [blockCommentOpen]
  split
  · rename_i i hlast
    rw [Option.isNone_iff_eq_none, Text.indexOf?_eq_none_iff]
    simp only [Text.standsAt_drop, hlast, Option.some.injEq, exists_eq_left']
    refine ⟨fun h j hj => ?_, fun h j => h _ (Nat.le_add_right _ _)⟩
    obtain ⟨k, rfl⟩ := Nat.exists_eq_add_of_le hj
    exact h k
  · rename_i hlast
    simp [hlast]

/-- The last two slashes tell whether a plain text ends in a line comment. -/
theorem lineCommentOpen_iff (h : Plain t) :
    lineCommentOpen t = true ↔ Region.code.after t = .lineComment := by
  rw [lineCommentOpen_eq_true_iff]
  constructor
  · rintro ⟨i, hlast, hline⟩
    have hstands : Text.StandsAt "//" t i := (Text.standsAt_of_lastIndexOf? hlast).1
    have hplain := h i (Text.lt_length_of_standsAt hstands (by decide))
    have hrest : ∀ k, newline ∉ t.drop (i + k) := by
      intro k hmem
      rw [← List.drop_drop] at hmem
      exact hline (List.mem_of_mem_drop hmem)
    -- If these two slashes do not open the comment, then the second of them is read inside it.
    rcases hplain.slashes hstands with hread | hread
    · rw [Region.after_of_reading hread, ← Text.append_drop_of_standsAt hstands]
      exact Region.after_lineComment (hrest 2)
    · rw [Region.after_of_reading hread]
      exact Region.after_lineComment (hrest 1)
  · intro hafter
    obtain ⟨hcode, _⟩ | ⟨i, hstands, hline⟩ := Region.exists_slashes_of_after hafter
    · cases hcode
    · -- The last two slashes may stand behind those that open the comment, but on the same line.
      obtain ⟨j, hlast⟩ := Text.exists_lastIndexOf?_of_standsAt hstands
      obtain ⟨k, rfl⟩ := Nat.exists_eq_add_of_le (Text.le_of_lastIndexOf? hlast hstands (by decide))
      refine ⟨i + k, hlast, fun hmem => ?_⟩
      rw [← List.drop_drop] at hmem
      exact hline (List.mem_of_mem_drop hmem)

/-- The last slash and star tell whether a plain text ends in a block comment. -/
theorem blockCommentOpen_iff (h : Plain t) :
    blockCommentOpen t = true ↔ Region.code.after t = .blockComment := by
  rw [blockCommentOpen_eq_true_iff]
  constructor
  · rintro ⟨i, hlast, hopen⟩
    have hstands : Text.StandsAt "/*" t i := (Text.standsAt_of_lastIndexOf? hlast).1
    have hplain := h i (Text.lt_length_of_standsAt hstands (by decide))
    have hrest : ∀ j, ¬Text.StandsAt "*/" (t.drop (i + 2)) j := by
      intro j hj
      rw [Text.standsAt_drop] at hj
      exact hopen _ (Nat.le_add_right _ _) hj
    rw [Region.after_of_reading (hplain.slashStar hstands), ← Text.append_drop_of_standsAt hstands]
    exact Region.after_blockComment hrest
  · intro hafter
    obtain ⟨hcode, _⟩ | ⟨i, hstands, hopen⟩ := Region.exists_slashStar_of_after hafter
    · cases hcode
    · -- The last opening stands no earlier than one that nothing closes, so nothing closes it either.
      obtain ⟨j, hlast⟩ := Text.exists_lastIndexOf?_of_standsAt hstands
      have hij : i ≤ j := Text.le_of_lastIndexOf? hlast hstands (by decide)
      exact ⟨j, hlast, fun k hk => hopen k (by omega)⟩

theorem insideComment_iff (h : Plain t) :
    insideComment t = true ↔ Region.code.after t = .lineComment ∨ Region.code.after t = .blockComment := by
  rw [insideComment, Bool.or_eq_true, blockCommentOpen_iff h, lineCommentOpen_iff h, or_comm]

theorem insideString_iff (h : Plain t) :
    insideString t = true ↔ Region.code.after t = .literal .double := by
  have hquotes : insideString t = decide (Region.code.after t = .literal .double) :=
    Region.quoteOpen_eq h fun _ => rfl
  rw [hquotes, decide_eq_true_iff]

theorem of_eq_string_iff (before line : Text) :
    Context.of before line = .string ↔ insideString before = true := by
  rw [Context.of]
  split_ifs <;> simp_all

theorem of_eq_comment_iff (before line : Text) :
    Context.of before line = .comment ↔ insideString before = false ∧ insideComment before = true := by
  rw [Context.of]
  split_ifs <;> simp_all

end Context

theorem cursorIn_finite (t : Text) (k : Nat) :
    cursorIn t (.finite k) =
      if k ≤ t.length then .ok k else .error (.cursorOutside (.finite k) t.length) := by
  have hint : (Number.finite k).toInt? = some (k : Int) := by
    rw [Number.toInt?, if_pos (Rat.den_natCast k), Rat.num_natCast]
  have hrange : 0 ≤ (k : Int) ∧ (k : Int) ≤ t.length ↔ k ≤ t.length := by omega
  rw [cursorIn, hint]
  simp only [hrange, Int.toNat_natCast]

theorem classify_finite {k : Nat} (hk : k ≤ t.length) :
    classify t (.finite k) = .ok (Context.atCursor t k) := by
  rw [classify, cursorIn_finite, if_pos hk]
  rfl

theorem classify_finite_eq_ok_iff {k : Nat} {c : Context} :
    classify t (.finite k) = .ok c ↔ k ≤ t.length ∧ Context.atCursor t k = c := by
  by_cases hk : k ≤ t.length
  · rw [classify_finite hk, Except.ok.injEq, and_iff_right hk]
  · rw [classify, cursorIn_finite, if_neg hk]
    exact iff_of_false nofun fun h => hk h.1

/-- In a plain text, the cursor is in a string or in a comment just when the automaton is there after the part
before the cursor, wherever the cut falls. -/
theorem classify_of_plain (h : Plain t) {k : Nat} (hk : k ≤ t.length) :
    ∃ c, classify t (.finite k) = .ok c ∧
      (c = .string ↔ Region.code.after (t.take k) = .literal .double) ∧
      (c = .comment ↔ Region.code.after (t.take k) = .lineComment ∨
        Region.code.after (t.take k) = .blockComment) := by
  have hbefore : Plain (t.take k) := Region.PlainFrom.take h k
  refine ⟨Context.atCursor t k, classify_finite hk, ?_, ?_⟩
  · rw [Context.atCursor, Context.of_eq_string_iff, Context.insideString_iff hbefore]
  · rw [Context.atCursor, Context.of_eq_comment_iff, Context.insideComment_iff hbefore, ← Bool.not_eq_true,
      Context.insideString_iff hbefore]
    refine and_iff_right_of_imp ?_
    rintro (hline | hblock) hstring
    · rw [hline] at hstring
      cases hstring
    · rw [hblock] at hstring
      cases hstring

/-- In a text with all kinds of lexemes, the cursor stands between a backslash and the quote it protects. -/
theorem classify_of_plain_protected :
    Plain "'x' \"\\\"\" /*/ */ // //" ∧ 6 ≤ ("'x' \"\\\"\" /*/ */ // //" : Text).length ∧
      classify "'x' \"\\\"\" /*/ */ // //" (.finite (6 : Nat)) = .ok .string := by
  have hplain : Plain "'x' \"\\\"\" /*/ */ // //" := by decide +kernel
  have hlength : 6 ≤ ("'x' \"\\\"\" /*/ */ // //" : Text).length := by decide
  obtain ⟨c, hclassify, hstring, _⟩ := classify_of_plain hplain hlength
  obtain rfl : c = .string := hstring.mpr (by decide)
  exact ⟨hplain, hlength, hclassify⟩

end CCompletion
