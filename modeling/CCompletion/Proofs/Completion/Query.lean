import CCompletion.Proofs.Completion.Offer
import CCompletion.Proofs.Text.Lowercase

/-!
# Queries

How the answers to several queries hang together: typing on only takes candidates away, the case of what is typed does
not matter, looking for starts alone gives the first of what looking everywhere gives, and so does a limit. What is
typed is a run of identifier units, so whatever stands around it in a candidate, the candidate is found.
-/

namespace CCompletion

namespace Candidate

variable {p q : Text} {a b c : Candidate} {cs : List Candidate} {mode : MatchMode}

/-! ## The order of texts with a common start -/

/-- Nothing that a text is the start of comes before it. -/
theorem not_lt_of_isPrefix {s t : Text} (h : s <+: t) : ¬compare t s = .lt := by
  obtain ⟨rest, rfl⟩ := h
  induction s with
  | nil =>
    cases rest with
    | nil => decide
    | cons u rest =>
      rw [List.nil_append, List.compare_cons_nil]
      decide
  | cons u s ih =>
    have hunit : compare u u = .eq := Std.ReflCmp.compare_self
    rw [List.cons_append, List.compare_cons_cons, hunit]
    exact ih

/-- The text, in lowercase, is what was typed. -/
def IsExact (typed : Text) (c : Candidate) : Prop := c.text.toLower = typed.toLower

theorem IsExact.starts (h : c.IsExact p) : c.Starts p := by
  have hstart : p.toLower ++ [] = c.text.toLower := (List.append_nil p.toLower).trans h.symm
  exact ⟨[], hstart⟩

/-- Only exact candidates come before an exact one. -/
theorem Precedes.isExact (hab : Precedes p a b) (hb : b.IsExact p) : a.IsExact p := by
  obtain ⟨-, hstarts⟩ | ⟨htier, hbefore⟩ := hab
  · exact absurd hb.starts hstarts
  · have ha : a.Starts p := htier.mpr hb.starts
    obtain hlt | ⟨heq, -⟩ := hbefore
    · rw [hb] at hlt
      exact absurd hlt (not_lt_of_isPrefix ha)
    · exact heq.trans hb

/-! ## Queries that extend others -/

theorem ranked_starting_isPrefix (typed : Text) (cs : List Candidate) :
    ranked .starting typed cs <+: ranked .containing typed cs := by
  have hstarting : ranked .starting typed cs = sorted ((distinct cs).filter (startsWith typed)) := by
    unfold ranked others sorted
    rw [List.mergeSort_nil, List.append_nil]
  rw [hstarting]
  exact List.prefix_append _ _

theorem Matches.of_append (hp : p.IsAscii) (hq : q.IsAscii) (h : c.Matches mode (p ++ q)) : c.Matches mode p := by
  have hstart : p.toLower <+: (p ++ q).toLower := by
    rw [Text.toLower_append_of_isAscii hp hq]
    exact List.prefix_append _ _
  cases mode with
  | containing => exact hstart.isInfix.trans h
  | starting => exact hstart.trans h

theorem ranked_congr_typed (h : p.toLower = q.toLower) : ranked mode p cs = ranked mode q cs := by
  have hstarts : startsWith p = startsWith q := by
    funext c
    unfold startsWith
    rw [h]
  have hcontains : containsTyped p = containsTyped q := by
    funext c
    unfold containsTyped
    rw [h]
  unfold ranked others
  rw [hstarts, hcontains]

end Candidate

/-! ## Limits -/

namespace Offer

theorem kept_natCast (n count : Nat) : kept (.finite n) count = min n count := by
  have hwhole : (n : Rat).num.tdiv (n : Rat).den = n := by
    rw [Rat.num_natCast, Rat.den_natCast]
    exact Int.tdiv_one _
  unfold kept
  dsimp only
  rw [hwhole, if_pos (Int.natCast_nonneg n), Int.toNat_natCast]

theorem limited_natCast (n : Nat) (cs : List Candidate) : limited (some (.finite n)) cs = cs.take n := by
  show cs.take (kept (.finite n) cs.length) = cs.take n
  rw [kept_natCast, List.take_eq_take_iff]
  omega

end Offer

/-- A limit keeps the first candidates of the offer that is made without it. -/
theorem offer_limited (symbols : Symbols) (mode : MatchMode) (n : Nat) (t : Text) (offset : Number) :
    offer symbols ⟨mode, some (.finite n)⟩ t offset =
      (offer symbols ⟨mode, none⟩ t offset).map fun o => { o with candidates := o.candidates.take n } := by
  unfold offer
  cases cursorIn t offset with
  | error refusal => rfl
  | ok k =>
    unfold offerAt
    dsimp only
    split
    · show Except.ok _ = Except.ok (Offer.mk _ _ (List.take n []))
      rw [List.take_nil]
    · cases Offer.pool symbols (Context.atCursor t k) (t.take k) with
      | error name => rfl
      | ok pool =>
        show Except.ok _ = Except.ok _
        rw [Offer.limited_natCast]
        rfl

/-- Of a run of identifier units: the candidates that start with it are the first of those that contain it; a longer run
brings in no candidate; the case of its letters changes nothing; each candidate that contains it, or starts with it,
is ranked, whatever else is in its text; and those that are it, in lowercase, come first. At any cursor, a limit
keeps the first candidates of the offer without it. -/
theorem ranked_queries {p : Text} (hp : p.IsRun) (cs : List Candidate) :
    (Candidate.ranked .starting p cs <+: Candidate.ranked .containing p cs) ∧
    (∀ mode (q : Text), q.IsRun → ∀ c ∈ Candidate.ranked mode (p ++ q) cs, c ∈ Candidate.ranked mode p cs) ∧
    (∀ mode p', p.SameButForCase p' → Candidate.ranked mode p' cs = Candidate.ranked mode p cs) ∧
    (∀ c ∈ cs, (p <:+: c.text → c ∈ Candidate.ranked .containing p cs) ∧
      (p <+: c.text → c ∈ Candidate.ranked .starting p cs)) ∧
    (∀ mode, (Candidate.ranked mode p cs).Pairwise fun a b => b.IsExact p → a.IsExact p) ∧
    ∀ symbols mode (n : Nat) t offset, offer symbols ⟨mode, some (.finite n)⟩ t offset =
      (offer symbols ⟨mode, none⟩ t offset).map fun o => { o with candidates := o.candidates.take n } := by
  refine ⟨Candidate.ranked_starting_isPrefix p cs, ?_, ?_, ?_, ?_, offer_limited⟩
  · intro mode q hq c hc
    rw [Candidate.mem_ranked] at hc ⊢
    exact ⟨hc.1, hc.2.of_append hp.isAscii hq.isAscii⟩
  · intro mode p' hsame
    exact Candidate.ranked_congr_typed (hsame.lower hp.isAscii).2
  · intro c hc
    constructor
    · intro hinfix
      exact Candidate.mem_ranked.mpr ⟨hc, Text.toLower_isInfix hp.isAscii hinfix⟩
    · intro hprefix
      exact Candidate.mem_ranked.mpr ⟨hc, Text.toLower_isPrefix hp.isAscii hprefix⟩
  · intro mode
    exact (Candidate.pairwise_ranked mode p cs).imp Candidate.Precedes.isExact

/-- A candidate between two sigmas, which have different lowercase forms before and behind the letters. -/
theorem ranked_queries_sigma :
    let cs : List Candidate := [⟨.function, "ΣabΣ"⟩, ⟨.variable, "xAb"⟩, ⟨.type, "AB"⟩]
    Text.IsRun "ab" ∧ ⟨.function, "ΣabΣ"⟩ ∈ Candidate.ranked .containing "ab" cs ∧
      Candidate.ranked .starting "ab" cs <+: Candidate.ranked .containing "ab" cs ∧
      Candidate.ranked .containing "AB" cs = Candidate.ranked .containing "ab" cs := by
  intro cs
  have hrun : Text.IsRun "ab" := List.all_eq_true.mp (by decide)
  have hinfix : Text.ofString "ab" <:+: Text.ofString "ΣabΣ" := by decide
  have hcase : Text.SameButForCase "ab" "AB" :=
    .cons (.inr (.inr ⟨by decide, by decide, by decide⟩)) (.cons (.inr (.inr ⟨by decide, by decide, by decide⟩)) .nil)
  obtain ⟨hstarting, -, hsame, hranked, -, -⟩ := ranked_queries hrun cs
  exact ⟨hrun, (hranked _ List.mem_cons_self).1 hinfix, hstarting, hsame .containing _ hcase⟩

end CCompletion
