/-!
# Backtracking patterns

Patterns as the `re` of Python matches them: the ways to match at a place come in the order in which they are
tried, and the first one counts. Only single characters are repeated, and no pattern matches the empty text.
-/

inductive Regex (α : Type)
  | one (p : α → Bool)
  | many (p : α → Bool) (least : Nat)
  | seq (r s : Regex α)
  | alt (r s : Regex α)
  | opt (r : Regex α)
  | group (r : Regex α)

namespace Regex

variable {α : Type}

/-- What is left after each number of characters of a class, the longest run first. -/
@[grind =] def greedy (p : α → Bool) : List α → List (List α)
  | [] => [[]]
  | c :: cs => if p c then greedy p cs ++ [c :: cs] else [c :: cs]

/-- The ways to match: the group, and what is left of the text. -/
@[grind =] def ways : Regex α → List α × List α → List (List α × List α)
  | one _, (_, []) => []
  | one p, (g, c :: cs) => if p c then [(g, cs)] else []
  | many p least, (g, cs) => ((greedy p cs).filter fun rest => rest.length + least ≤ cs.length).map (g, ·)
  | seq r s, x => (ways r x).flatMap (ways s)
  | alt r s, x => ways r x ++ ways s x
  | opt r, x => ways r x ++ [x]
  | group r, x => (ways r x).map fun y => (x.2.take (x.2.length - y.2.length), y.2)

structure Match (α : Type) where
  text : List α
  group : List α

/-- The match at the beginning of a text. -/
@[grind =] def matchAt (r : Regex α) (cs : List α) : Option (Match α) :=
  (ways r ([], cs)).head?.map fun y => { text := cs.take (cs.length - y.2.length), group := y.1 }

/-- `finditer`, past the characters of a match. -/
@[grind =] def matchesFrom (r : Regex α) : Nat → List α → List (Match α)
  | _, [] => []
  | k + 1, _ :: cs => matchesFrom r k cs
  | 0, c :: cs =>
      match matchAt r (c :: cs) with
      | some m => m :: matchesFrom r (m.text.length - 1) cs
      | none => matchesFrom r 0 cs

@[grind =] def finditer (r : Regex α) (cs : List α) : List (Match α) := matchesFrom r 0 cs

def search (r : Regex α) (cs : List α) : Option (Match α) := (finditer r cs).head?

/-- `sub`, past the characters of a match. -/
@[grind =] def subFrom (r : Regex α) (new : List α) : Nat → List α → List α
  | _, [] => []
  | k + 1, _ :: cs => subFrom r new k cs
  | 0, c :: cs =>
      match matchAt r (c :: cs) with
      | some m => new ++ subFrom r new (m.text.length - 1) cs
      | none => c :: subFrom r new 0 cs

def sub (r : Regex α) (new cs : List α) : List α := subFrom r new 0 cs

section Literals

variable [DecidableEq α]

/-- One pattern after the other. -/
@[grind =] def all : List (Regex α) → Regex α
  | [] => many (fun _ => false) 0
  | [r] => r
  | r :: rs => seq r (all rs)

def lit (cs : List α) : Regex α := all (cs.map fun c => one fun d => decide (d = c))

/-- `sub in text`. -/
def isIn (sub cs : List α) : Bool := (search (lit sub) cs).isSome

end Literals

/-! ## Ways to match -/

variable {p : α → Bool} {r s : Regex α} {x y : List α × List α} {cs rest : List α}

theorem mem_greedy : rest ∈ greedy p cs ↔ ∃ t, cs = t ++ rest ∧ ∀ c ∈ t, p c = true := by
  induction cs with
  | nil =>
      simp only [greedy, List.mem_singleton]
      constructor
      · rintro rfl
        exact ⟨[], rfl, nofun⟩
      · rintro ⟨t, ht, -⟩
        exact (List.append_eq_nil_iff.1 ht.symm).2
  | cons c cs ih =>
      rw [greedy]
      constructor
      · intro h
        split at h
        · next hc =>
            cases List.mem_append.1 h with
            | inl h =>
                obtain ⟨t, rfl, ht⟩ := ih.1 h
                exact ⟨c :: t, rfl, List.forall_mem_cons.2 ⟨hc, ht⟩⟩
            | inr h => exact ⟨[], (List.mem_singleton.1 h).symm, nofun⟩
        · exact ⟨[], (List.mem_singleton.1 h).symm, nofun⟩
      · rintro ⟨t, ht, hp⟩
        cases t with
        | nil =>
            rw [List.nil_append] at ht
            subst ht
            split
            · exact List.mem_append_right _ List.mem_cons_self
            · exact List.mem_cons_self
        | cons d t =>
            cases ht
            rw [if_pos (hp c List.mem_cons_self)]
            exact List.mem_append_left _ (ih.2 ⟨t, rfl, fun e he => hp e (List.mem_cons_of_mem _ he)⟩)

theorem mem_many {least : Nat} : y ∈ ways (many p least) x ↔
    y.1 = x.1 ∧ ∃ t, x.2 = t ++ y.2 ∧ (∀ c ∈ t, p c = true) ∧ least ≤ t.length := by
  obtain ⟨g, cs⟩ := x
  obtain ⟨g', rest⟩ := y
  simp only [ways, List.mem_map, List.mem_filter, decide_eq_true_eq, Prod.mk.injEq, mem_greedy]
  constructor
  · rintro ⟨_, ⟨⟨t, rfl, hp⟩, hlen⟩, rfl, rfl⟩
    refine ⟨rfl, t, rfl, hp, ?_⟩
    rw [List.length_append] at hlen
    omega
  · rintro ⟨rfl, t, rfl, hp, hlen⟩
    refine ⟨rest, ⟨⟨t, rfl, hp⟩, ?_⟩, rfl, rfl⟩
    rw [List.length_append]
    omega

theorem mem_one : y ∈ ways (one p) x ↔ y.1 = x.1 ∧ ∃ c, x.2 = c :: y.2 ∧ p c = true := by
  obtain ⟨g, cs⟩ := x
  obtain ⟨g', rest⟩ := y
  cases cs with
  | nil => simp [ways]
  | cons c cs =>
      rw [ways]
      split
      · next hc =>
          simp only [List.mem_singleton, Prod.mk.injEq, List.cons.injEq]
          constructor
          · rintro ⟨rfl, rfl⟩
            exact ⟨rfl, c, ⟨rfl, rfl⟩, hc⟩
          · rintro ⟨rfl, d, ⟨rfl, rfl⟩, -⟩
            exact ⟨rfl, rfl⟩
      · next hc =>
          simp only [List.not_mem_nil, List.cons.injEq, false_iff]
          rintro ⟨-, d, ⟨rfl, -⟩, hd⟩
          exact hc hd

theorem mem_seq : y ∈ ways (seq r s) x ↔ ∃ z ∈ ways r x, y ∈ ways s z := by
  rw [ways, List.mem_flatMap]

theorem mem_alt : y ∈ ways (alt r s) x ↔ y ∈ ways r x ∨ y ∈ ways s x := by
  rw [ways, List.mem_append]

theorem mem_group : y ∈ ways (group r) x ↔
    y.1 = x.2.take (x.2.length - y.2.length) ∧ ∃ g, (g, y.2) ∈ ways r x := by
  rw [ways, List.mem_map]
  constructor
  · rintro ⟨z, hz, rfl⟩
    exact ⟨rfl, z.1, hz⟩
  · rintro ⟨hg, g, hz⟩
    exact ⟨_, hz, Prod.ext hg.symm rfl⟩

/-- A match is a beginning of the text. -/
theorem ways_suffix (h : y ∈ ways r x) : ∃ t, x.2 = t ++ y.2 := by
  induction r generalizing x y with
  | one p =>
      obtain ⟨-, c, hx, -⟩ := mem_one.1 h
      exact ⟨[c], hx⟩
  | many p least =>
      obtain ⟨-, t, hx, -⟩ := mem_many.1 h
      exact ⟨t, hx⟩
  | seq r s ihr ihs =>
      obtain ⟨z, hz, hy⟩ := mem_seq.1 h
      obtain ⟨t, ht⟩ := ihr hz
      obtain ⟨t', ht'⟩ := ihs hy
      exact ⟨t ++ t', by rw [ht, ht', List.append_assoc]⟩
  | alt r s ihr ihs => exact (mem_alt.1 h).elim ihr ihs
  | opt r ih =>
      rw [ways, List.mem_append, List.mem_singleton] at h
      obtain h | rfl := h
      · exact ih h
      · exact ⟨[], rfl⟩
  | group r ih =>
      obtain ⟨-, g, hz⟩ := mem_group.1 h
      exact ih (y := (g, y.2)) hz

theorem mem_all_cons {rs : List (Regex α)} [DecidableEq α] :
    y ∈ ways (all (r :: rs)) x ↔ ∃ z ∈ ways r x, y ∈ ways (all rs) z := by
  cases rs with
  | nil =>
      have hnil : ∀ z : List α × List α, y ∈ ways (all []) z ↔ y = z := fun z => by
        rw [all, mem_many]
        constructor
        · rintro ⟨hg, t, hz, hp, -⟩
          cases t with
          | nil => exact Prod.ext hg hz.symm
          | cons c t => cases hp c List.mem_cons_self
        · rintro rfl
          exact ⟨rfl, [], rfl, nofun, Nat.le_refl _⟩
      rw [show all [r] = r from rfl]
      simp only [hnil]
      constructor
      · exact fun h => ⟨y, h, rfl⟩
      · rintro ⟨z, hz, rfl⟩
        exact hz
  | cons s rs => exact mem_seq

section Literals

variable [DecidableEq α]

theorem mem_lit {ds : List α} : y ∈ ways (lit ds) x ↔ y.1 = x.1 ∧ x.2 = ds ++ y.2 := by
  induction ds generalizing x with
  | nil =>
      rw [lit, List.map_nil, all, mem_many]
      constructor
      · rintro ⟨hg, t, hx, hp, -⟩
        cases t with
        | nil => exact ⟨hg, hx⟩
        | cons c t => cases hp c List.mem_cons_self
      · rintro ⟨hg, hx⟩
        exact ⟨hg, [], hx, nofun, Nat.le_refl _⟩
  | cons d ds ih =>
      rw [lit, List.map_cons, mem_all_cons]
      constructor
      · rintro ⟨z, hz, hy⟩
        obtain ⟨hg, c, hx, hc⟩ := mem_one.1 hz
        obtain ⟨hg', hz⟩ := ih.1 hy
        rw [of_decide_eq_true hc] at hx
        exact ⟨hg'.trans hg, by rw [hx, hz]; rfl⟩
      · rintro ⟨hg, hx⟩
        exact ⟨(x.1, ds ++ y.2), mem_one.2 ⟨rfl, d, hx, decide_eq_true rfl⟩, ih.2 ⟨hg, rfl⟩⟩

end Literals

/-! ## The first way -/

theorem head?_greedy (p : α → Bool) (cs : List α) : (greedy p cs).head? = some (cs.dropWhile p) := by
  induction cs with
  | nil => rfl
  | cons c cs ih =>
      rw [greedy, List.dropWhile_cons]
      split
      · rw [List.head?_append, ih]
        rfl
      · rfl

theorem head?_many (p : α → Bool) (x : List α × List α) :
    (ways (many p 0) x).head? = some (x.1, x.2.dropWhile p) := by
  have hall : (greedy p x.2).filter (fun rest => rest.length + 0 ≤ x.2.length) = greedy p x.2 :=
    List.filter_eq_self.2 fun rest hrest => by
      obtain ⟨t, ht, -⟩ := mem_greedy.1 hrest
      rw [ht]
      simp
  rw [ways, hall, List.head?_map, head?_greedy]
  rfl

theorem head?_seq (h : (ways (seq r s) x).head? = some y) : ∃ z ∈ ways r x, (ways s z).head? = some y := by
  rw [ways] at h
  generalize ways r x = zs at h
  induction zs with
  | nil => cases h
  | cons z zs ih =>
      rw [List.flatMap_cons, List.head?_append] at h
      cases hz : (ways s z).head? with
      | some y' =>
          rw [hz] at h
          exact ⟨z, List.mem_cons_self, hz.trans h⟩
      | none =>
          rw [hz] at h
          obtain ⟨z', hz', hy⟩ := ih h
          exact ⟨z', List.mem_cons_of_mem _ hz', hy⟩

/-! ## Runs of characters -/

section Runs

variable {c d : α} {as bs us vs : List α}

/-- What stops a run of a class tells where it stops. -/
theorem run_unique {q : α → Prop} (ha : ∀ e ∈ as, q e) (hb : ∀ e ∈ bs, q e) (hc : ¬ q c) (hd : ¬ q d)
    (h : as ++ c :: us = bs ++ d :: vs) : as = bs ∧ c :: us = d :: vs := by
  induction as generalizing bs with
  | nil =>
      cases bs with
      | nil => exact ⟨rfl, h⟩
      | cons b bs =>
          cases h
          exact (hc (hb c List.mem_cons_self)).elim
  | cons a as ih =>
      cases bs with
      | nil =>
          cases h
          exact (hd (ha d List.mem_cons_self)).elim
      | cons b bs =>
          rw [List.cons_append, List.cons_append, List.cons.injEq] at h
          obtain ⟨rfl, h⟩ := h
          obtain ⟨heq, hrest⟩ := ih (fun e he => ha e (List.mem_cons_of_mem _ he))
            (fun e he => hb e (List.mem_cons_of_mem _ he)) h
          exact ⟨congrArg _ heq, hrest⟩

/-- Any place of a character is not before the first one. -/
theorem suffix_of_first (as bs : List α) (hc : c ∉ as) (h : as ++ c :: us = bs ++ c :: vs) : vs <:+ us := by
  induction as generalizing bs with
  | nil =>
      cases bs with
      | nil =>
          cases h
          exact List.suffix_rfl
      | cons b bs =>
          cases h
          exact ⟨bs ++ [c], by simp⟩
  | cons a as ih =>
      rw [List.mem_cons, not_or] at hc
      cases bs with
      | nil =>
          cases h
          exact (hc.1 rfl).elim
      | cons b bs =>
          rw [List.cons_append, List.cons_append, List.cons.injEq] at h
          exact ih bs hc.2 h.2

end Runs

/-! ## Matches -/

variable {m : Match α}

theorem matchAt_eq_none : matchAt r cs = none ↔ ∀ y, y ∉ ways r ([], cs) := by
  rw [matchAt, Option.map_eq_none_iff, List.head?_eq_none_iff, List.eq_nil_iff_forall_not_mem]

/-- The first way to match. -/
theorem matchAt_eq_some (h : matchAt r cs = some m) :
    ∃ y, (ways r ([], cs)).head? = some y ∧ cs = m.text ++ y.2 ∧ m.group = y.1 := by
  obtain ⟨y, hy, rfl⟩ := Option.map_eq_some_iff.1 h
  obtain ⟨t, ht⟩ := ways_suffix (List.mem_of_mem_head? hy)
  refine ⟨y, hy, ?_, rfl⟩
  dsimp only at ht ⊢
  rw [ht, List.length_append, Nat.add_sub_cancel, List.take_left]

theorem matchesFrom_skip {k : Nat} (h : cs.length ≤ k) : matchesFrom r k cs = [] := by
  induction cs generalizing k with
  | nil => rw [matchesFrom]
  | cons c cs ih =>
      cases k with
      | zero => cases h
      | succ k => exact ih (Nat.le_of_succ_le_succ h)

theorem finditer_eq_nil : finditer r cs = [] ↔ ∀ k, k < cs.length → matchAt r (cs.drop k) = none := by
  unfold finditer
  induction cs with
  | nil => exact iff_of_true rfl nofun
  | cons c cs ih =>
      rw [matchesFrom]
      constructor
      · intro h k hk
        split at h
        · cases h
        · next hnone =>
            cases k with
            | zero => exact hnone
            | succ k => exact ih.1 h k (Nat.lt_of_succ_lt_succ hk)
      · intro h
        rw [show matchAt r (c :: cs) = none from h 0 (Nat.succ_pos _)]
        exact ih.2 fun k hk => h (k + 1) (Nat.succ_lt_succ hk)

/-- The matches of a text and of a longer one: the same, except that the last one may be another. -/
inductive Extends (R : Match α → Match α → Prop) : List (Match α) → List (Match α) → Prop
  | nil (ms : List (Match α)) : Extends R [] ms
  | cons (m : Match α) {ms ms' : List (Match α)} : Extends R ms ms' → Extends R (m :: ms) (m :: ms')
  | last {m m' : Match α} (ms : List (Match α)) : R m m' → Extends R [m] (m' :: ms)

/-- If a match stays in a longer text, or ends the text and changes by `R`, and if nothing follows a place where only
the longer text has a match, the matches of the two go together. -/
theorem matchesFrom_extends {R : Match α → Match α → Prop} {more : List α}
    (hkeep : ∀ cs m, matchAt r cs = some m → matchAt r (cs ++ more) = some m ∨
      m.text = cs ∧ ∃ m', matchAt r (cs ++ more) = some m' ∧ R m m')
    (hlate : ∀ cs, matchAt r cs = none → matchAt r (cs ++ more) ≠ none → finditer r cs = []) (k : Nat) (cs : List α) :
    Extends R (matchesFrom r k cs) (matchesFrom r k (cs ++ more)) := by
  induction cs generalizing k with
  | nil =>
      rw [matchesFrom]
      exact .nil _
  | cons c cs ih =>
      cases k with
      | succ k => exact ih k
      | zero =>
          cases hm : matchAt r (c :: cs) with
          | some m =>
              rw [matchesFrom, hm, List.cons_append, matchesFrom]
              dsimp only
              obtain hsame | ⟨htext, m', hm', hr⟩ := hkeep _ _ hm
              · rw [← List.cons_append, hsame]
                exact .cons m (ih _)
              · have hskip : cs.length ≤ m.text.length - 1 := by
                  rw [htext]
                  exact Nat.le_refl _
                rw [← List.cons_append, hm', matchesFrom_skip hskip]
                exact .last _ hr
          | none =>
              by_cases hmore : matchAt r (c :: cs ++ more) = none
              · rw [matchesFrom, hm, List.cons_append, matchesFrom, ← List.cons_append, hmore]
                exact ih 0
              · rw [show matchesFrom r 0 (c :: cs) = [] from hlate _ hm hmore]
                exact .nil _

section Literals

variable [DecidableEq α]

theorem isIn_iff {sub : List α} (hne : sub ≠ []) : isIn sub cs = true ↔ sub <:+: cs := by
  have hat : ∀ ds : List α, matchAt (lit sub) ds ≠ none ↔ sub <+: ds := fun ds => by
    rw [Ne, matchAt_eq_none]
    constructor
    · intro h
      obtain ⟨y, hy⟩ := Classical.not_forall_not.1 h
      exact ⟨y.2, (mem_lit.1 hy).2.symm⟩
    · rintro ⟨rest, rfl⟩ h
      exact h ([], rest) (mem_lit.2 ⟨rfl, rfl⟩)
  rw [isIn, search, List.isSome_head?, Ne, finditer_eq_nil]
  constructor
  · intro h
    obtain ⟨k, hk⟩ := Classical.not_forall.1 h
    obtain ⟨-, hk⟩ := Classical.not_imp.1 hk
    exact ((hat _).1 hk).isInfix.trans (List.drop_suffix k cs).isInfix
  · rintro ⟨a, b, rfl⟩ h
    refine (hat _).2 ?_ (h a.length ?_)
    · rw [List.append_assoc, List.drop_left]
      exact List.prefix_append _ _
    · have := List.length_pos_iff.2 hne
      simp only [List.length_append]
      omega

end Literals

end Regex
