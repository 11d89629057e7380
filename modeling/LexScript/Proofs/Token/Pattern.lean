import Mathlib.Data.List.TakeWhile

/-!
# Patterns

Regular patterns with the texts they match, and the order in which the matches at the front of a text are
preferred: the first part of a choice before the second, and more repetitions before fewer. `mem_splits`
says that the preferences range over exactly the matches.
-/

namespace LexScript

inductive Pattern
  | nothing
  | one (accepts : Char → Bool)
  | both (first second : Pattern)
  | either (preferred other : Pattern)
  | many (repeated : Pattern)

namespace Pattern

def literal : List Char → Pattern
  | [] => nothing
  | c :: cs => both (one fun d => d = c) (literal cs)

/-- The pattern matches the text, from its beginning to its end. -/
inductive Matches : Pattern → List Char → Prop
  | nothing : Matches nothing []
  | one {accepts : Char → Bool} {c : Char} (accepted : accepts c = true) : Matches (one accepts) [c]
  | both {p q : Pattern} {a b : List Char} (first : Matches p a) (second : Matches q b) :
    Matches (both p q) (a ++ b)
  | preferred {p q : Pattern} {a : List Char} (h : Matches p a) : Matches (either p q) a
  | other {p q : Pattern} {a : List Char} (h : Matches q a) : Matches (either p q) a
  | done {p : Pattern} : Matches (many p) []
  | more {p : Pattern} {a b : List Char} (first : Matches p a) (rest : Matches (many p) b) :
    Matches (many p) (a ++ b)

/-- What `first` splits off and what `next` splits off after it, in the order of preference. -/
def chain (first : List (List Char × List Char)) (next : List Char → List (List Char × List Char)) :
    List (List Char × List Char) :=
  first.flatMap fun (a, rest) => (next rest).map fun (b, after) => (a ++ b, after)

def repeats (step : List Char → List (List Char × List Char)) :
    (n : Nat) → List Char → List (List Char × List Char)
  | 0, s => [([], s)]
  | n + 1, s => chain (step s) (repeats step n) ++ [([], s)]

/-- The ways to split a match off the front of a text, in the order of preference. A repeated pattern is
taken to match no empty text. -/
def splits : Pattern → List Char → List (List Char × List Char)
  | nothing, s => [([], s)]
  | one _, [] => []
  | one accepts, c :: rest => if accepts c then [([c], rest)] else []
  | both p q, s => chain (p.splits s) q.splits
  | either p q, s => p.splits s ++ q.splits s
  | many p, s => repeats p.splits s.length s

def preferred? (p : Pattern) (s : List Char) : Option (List Char × List Char) := (p.splits s).head?

theorem mem_chain {first : List (List Char × List Char)}
    {next : List Char → List (List Char × List Char)} {a after : List Char} :
    (a, after) ∈ chain first next ↔
      ∃ b rest c, (b, rest) ∈ first ∧ (c, after) ∈ next rest ∧ a = b ++ c := by
  simp only [chain, List.mem_flatMap, List.mem_map, Prod.exists, Prod.mk.injEq]
  constructor
  · rintro ⟨b, rest, hb, c, _, hc, rfl, rfl⟩
    exact ⟨b, rest, c, hb, hc, rfl⟩
  · rintro ⟨b, rest, c, hb, hc, rfl⟩
    exact ⟨b, rest, hb, c, after, hc, rfl, rfl⟩

/-- A match of repetitions that is not empty begins with one that is not empty. -/
theorem Matches.exists_first {p : Pattern} {a : List Char} (h : Matches (many p) a) (hne : a ≠ []) :
    ∃ b c, b ≠ [] ∧ Matches p b ∧ Matches (many p) c ∧ a = b ++ c := by
  generalize hq : many p = q at h
  induction h with
  | done => exact absurd rfl hne
  | @more p' b c first rest _ ihRest =>
    obtain rfl := many.inj hq
    by_cases hb : b = []
    · subst hb
      exact ihRest hne rfl
    · exact ⟨b, c, hb, first, rest, rfl⟩
  | _ => cases hq

/-- The pattern splits off exactly its matches at the front of a text. -/
def Exhausts (p : Pattern) : Prop :=
  ∀ s a after, (a, after) ∈ p.splits s ↔ Matches p a ∧ a ++ after = s

theorem Exhausts.matches_of_mem_repeats {p : Pattern} (hp : p.Exhausts) {n : Nat} {s a after : List Char}
    (h : (a, after) ∈ repeats p.splits n s) : Matches (many p) a ∧ a ++ after = s := by
  induction n generalizing s a after with
  | zero =>
    obtain ⟨rfl, rfl⟩ := Prod.mk.inj (List.mem_singleton.1 h)
    exact ⟨.done, rfl⟩
  | succ n ih =>
    rcases List.mem_append.1 h with h | h
    · obtain ⟨b, rest, c, hb, hc, rfl⟩ := mem_chain.1 h
      obtain ⟨hfirst, rfl⟩ := (hp _ _ _).1 hb
      obtain ⟨hmany, rfl⟩ := ih hc
      exact ⟨.more hfirst hmany, List.append_assoc ..⟩
    · obtain ⟨rfl, rfl⟩ := Prod.mk.inj (List.mem_singleton.1 h)
      exact ⟨.done, rfl⟩

/-- A text of `n` characters has at most `n` repetitions that matter. -/
theorem Exhausts.mem_repeats {p : Pattern} (hp : p.Exhausts) {n : Nat} {a : List Char} (after : List Char)
    (hlen : a.length ≤ n) (h : Matches (many p) a) : (a, after) ∈ repeats p.splits n (a ++ after) := by
  induction n generalizing a with
  | zero =>
    obtain rfl := List.length_eq_zero_iff.1 (Nat.le_zero.1 hlen)
    exact List.mem_singleton.2 rfl
  | succ n ih =>
    by_cases hne : a = []
    · subst hne
      exact List.mem_append_right _ (List.mem_singleton.2 rfl)
    · obtain ⟨b, c, hb, hfirst, hmany, rfl⟩ := h.exists_first hne
      have hpos := List.length_pos_iff.2 hb
      rw [List.length_append] at hlen
      have hsplit := (hp _ _ _).2 ⟨hfirst, (List.append_assoc b c after).symm⟩
      exact List.mem_append_left _ (mem_chain.2 ⟨b, c ++ after, c, hsplit, ih (by omega) hmany, rfl⟩)

theorem exhausts (p : Pattern) : p.Exhausts := by
  induction p with
  | nothing =>
    intro s a after
    simp only [splits, List.mem_singleton, Prod.mk.injEq]
    constructor
    · rintro ⟨rfl, rfl⟩
      exact ⟨.nothing, rfl⟩
    · rintro ⟨h, rfl⟩
      cases h
      exact ⟨rfl, rfl⟩
  | one accepts =>
    intro s a after
    constructor
    · intro h
      cases s with
      | nil => cases h
      | cons c rest =>
        rw [splits] at h
        split at h
        · rename_i hc
          obtain ⟨rfl, rfl⟩ := Prod.mk.inj (List.mem_singleton.1 h)
          exact ⟨.one hc, rfl⟩
        · cases h
    · rintro ⟨h, rfl⟩
      cases h with
      | one hc => simp [splits, hc]
  | both p q ihp ihq =>
    intro s a after
    rw [splits, mem_chain]
    constructor
    · rintro ⟨b, rest, c, hb, hc, rfl⟩
      obtain ⟨hp, rfl⟩ := (ihp _ _ _).1 hb
      obtain ⟨hq, rfl⟩ := (ihq _ _ _).1 hc
      exact ⟨.both hp hq, List.append_assoc ..⟩
    · rintro ⟨h, rfl⟩
      cases h with
      | @both _ _ b c first second =>
        have hfirst := (ihp _ _ _).2 ⟨first, (List.append_assoc b c after).symm⟩
        exact ⟨b, c ++ after, c, hfirst, (ihq _ _ _).2 ⟨second, rfl⟩, rfl⟩
  | either p q ihp ihq =>
    intro s a after
    rw [splits, List.mem_append, ihp, ihq, ← or_and_right]
    refine and_congr_left fun _ => ⟨fun h => h.elim .preferred .other, fun h => ?_⟩
    cases h with
    | preferred h => exact .inl h
    | other h => exact .inr h
  | many p ih =>
    intro s a after
    constructor
    · exact ih.matches_of_mem_repeats
    · rintro ⟨h, rfl⟩
      exact ih.mem_repeats after (by rw [List.length_append]; omega) h

/-- What a pattern splits off are its matches at the front of the text. -/
theorem mem_splits {p : Pattern} {s a after : List Char} :
    (a, after) ∈ p.splits s ↔ Matches p a ∧ a ++ after = s :=
  p.exhausts s a after

/-- Nothing is split off where nothing matches. -/
theorem preferred?_eq_none_iff {p : Pattern} {s : List Char} :
    p.preferred? s = none ↔ ∀ a, a <+: s → ¬ Matches p a := by
  rw [preferred?, List.head?_eq_none_iff, List.eq_nil_iff_forall_not_mem]
  constructor
  · rintro h a ⟨after, rfl⟩ hmatch
    exact h (a, after) (mem_splits.2 ⟨hmatch, rfl⟩)
  · rintro h ⟨a, after⟩ hmem
    obtain ⟨hmatch, rfl⟩ := mem_splits.1 hmem
    exact h a ⟨after, rfl⟩ hmatch

theorem matches_of_preferred? {p : Pattern} {s a after : List Char}
    (h : p.preferred? s = some (a, after)) : Matches p a ∧ a ++ after = s :=
  mem_splits.1 (List.mem_of_head? h)

section Preferred

attribute [local simp] preferred? splits chain repeats

variable {p q : Pattern} {s a rest b after : List Char} {accepts : Char → Bool} {c : Char}

theorem preferred?_both (hp : p.preferred? s = some (a, rest)) (hq : q.preferred? rest = some (b, after)) :
    (both p q).preferred? s = some (a ++ b, after) := by
  obtain ⟨more, hmore⟩ := List.head?_eq_some_iff.1 hp
  obtain ⟨others, hothers⟩ := List.head?_eq_some_iff.1 hq
  simp [hmore, hothers]

theorem preferred?_one (h : accepts c = true) : (one accepts).preferred? (c :: s) = some ([c], s) := by
  simp [h]

theorem preferred?_one_both (h : accepts c = true) (hq : q.preferred? s = some (b, after)) :
    (both (one accepts) q).preferred? (c :: s) = some (c :: b, after) :=
  preferred?_both (preferred?_one h) hq

/-- A pattern that begins with a class needs a character of the class. -/
theorem preferred?_both_of_not (h : accepts c = false) : (both (one accepts) q).preferred? (c :: s) = none := by
  simp [h]

theorem preferred?_either (hp : p.preferred? s = some (a, rest)) :
    (either p q).preferred? s = some (a, rest) := by
  obtain ⟨more, hmore⟩ := List.head?_eq_some_iff.1 hp
  simp [hmore]

theorem preferred?_either_of_none (hp : p.preferred? s = none) :
    (either p q).preferred? s = q.preferred? s := by
  rw [preferred?, List.head?_eq_none_iff] at hp
  simp [hp]

/-- Repetitions of a class go on as long as the class does. -/
theorem preferred?_many_one (accepts : Char → Bool) (s : List Char) :
    (many (one accepts)).preferred? s = some (s.takeWhile accepts, s.dropWhile accepts) := by
  suffices ∀ n, s.length ≤ n → (repeats (one accepts).splits n s).head? =
      some (s.takeWhile accepts, s.dropWhile accepts) from this _ (Nat.le_refl _)
  intro n
  induction n generalizing s with
  | zero =>
    intro hlen
    obtain rfl := List.length_eq_zero_iff.1 (Nat.le_zero.1 hlen)
    rfl
  | succ n ih =>
    intro hlen
    cases s with
    | nil => rfl
    | cons c rest =>
      have hrest := ih rest (Nat.le_of_succ_le_succ hlen)
      obtain ⟨more, hmore⟩ := List.head?_eq_some_iff.1 hrest
      by_cases hc : accepts c = true
      · simp [hc, hmore]
      · simp [hc]

theorem preferred?_literal (text s : List Char) :
    (literal text).preferred? (text ++ s) = some (text, s) := by
  induction text with
  | nil => rfl
  | cons c text ih => exact preferred?_one_both (decide_eq_true rfl) ih

end Preferred

section Inversion

variable {p q : Pattern} {a : List Char} {accepts : Char → Bool}

theorem matches_both_iff : Matches (both p q) a ↔ ∃ b c, Matches p b ∧ Matches q c ∧ a = b ++ c := by
  constructor
  · intro h
    cases h with
    | both first second => exact ⟨_, _, first, second, rfl⟩
  · rintro ⟨b, c, first, second, rfl⟩
    exact .both first second

theorem matches_one_iff : Matches (one accepts) a ↔ ∃ c, accepts c = true ∧ a = [c] := by
  constructor
  · intro h
    cases h with
    | one accepted => exact ⟨_, accepted, rfl⟩
  · rintro ⟨c, accepted, rfl⟩
    exact .one accepted

theorem matches_one_both_iff : Matches (both (one accepts) q) a ↔
    ∃ c b, accepts c = true ∧ Matches q b ∧ a = c :: b := by
  rw [matches_both_iff]
  constructor
  · rintro ⟨_, b, hone, hq, rfl⟩
    obtain ⟨c, hc, rfl⟩ := matches_one_iff.1 hone
    exact ⟨c, b, hc, hq, rfl⟩
  · rintro ⟨c, b, hc, hq, rfl⟩
    exact ⟨[c], b, .one hc, hq, rfl⟩

theorem matches_either_iff : Matches (either p q) a ↔ Matches p a ∨ Matches q a := by
  constructor
  · intro h
    cases h with
    | preferred h => exact .inl h
    | other h => exact .inr h
  · exact fun h => h.elim .preferred .other

theorem matches_nothing_iff : Matches nothing a ↔ a = [] := by
  constructor
  · intro h
    cases h
    rfl
  · rintro rfl
    exact .nothing

theorem matches_many_one_iff : Matches (many (one accepts)) a ↔ ∀ c ∈ a, accepts c = true := by
  constructor
  · intro h
    generalize hq : many (one accepts) = q at h
    induction h with
    | done => exact nofun
    | more first rest _ ihRest =>
      obtain rfl := many.inj hq
      obtain ⟨c, hc, rfl⟩ := matches_one_iff.1 first
      exact List.forall_mem_cons.2 ⟨hc, ihRest rfl⟩
    | _ => cases hq
  · intro h
    induction a with
    | nil => exact .done
    | cons c rest ih =>
      obtain ⟨hc, hrest⟩ := List.forall_mem_cons.1 h
      exact .more (a := [c]) (.one hc) (ih hrest)

theorem matches_literal_iff {text : List Char} : Matches (literal text) a ↔ a = text := by
  induction text generalizing a with
  | nil => exact matches_nothing_iff
  | cons c text ih =>
    rw [literal, matches_one_both_iff]
    simp [ih]

end Inversion

end Pattern
end LexScript
