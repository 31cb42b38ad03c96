import Apifor.Lib.Runs
import Mathlib.Data.List.Nodup
import Mathlib.Data.List.Count

/-!
# Transactions at READ COMMITTED

One table of row versions, and transactions whose statements take turns. A `DELETE` takes its snapshot of
the committed versions when it starts, waits for those that another transaction has deleted, and passes over
those that are gone by then. What a transaction does becomes visible when it commits.
-/

namespace ReadCommitted

variable {ρ κ : Type}

inductive Stmt (ρ : Type)
  | delete (p : ρ → Bool)
  | insert (r : ρ)

structure Version (ρ : Type) where
  no : Nat
  row : ρ

/-- `snapshot` is that of the `DELETE` in progress, `saw` those of the earlier ones. -/
structure Txn (ρ : Type) where
  todo : List (Stmt ρ)
  snapshot : Option (List Nat) := none
  saw : List Nat := []
  gone : List Nat := []
  made : List ρ := []

structure Db (ρ : Type) where
  rows : List (Version ρ)
  next : Nat
  txns : List (Txn ρ) := []

inductive Event (ρ : Type)
  | start (todo : List (Stmt ρ))
  | turn (i : Nat)
  | rollback (i : Nat)

/-- The rows that the statements insert. -/
@[grind =] def insertions : List (Stmt ρ) → Nat
  | [] => 0
  | .delete _ :: todo => insertions todo
  | .insert _ :: todo => insertions todo + 1

/-- Transactions insert one row at most. -/
@[grind =] def Event.Single : Event ρ → Prop
  | .start todo => insertions todo ≤ 1
  | _ => True

namespace Db

@[grind =] def matching (db : Db ρ) (p : ρ → Bool) : List Nat := (db.rows.filter fun v => p v.row).map (·.no)

def present (db : Db ρ) (n : Nat) : Bool := db.rows.any fun v => decide (v.no = n)

/-- Another transaction has deleted the version. -/
def locked (db : Db ρ) (i n : Nat) : Bool := (db.txns.eraseIdx i).any fun t => t.gone.contains n

/-- The rows as versions from `next` on. -/
@[grind =] def numbered : Nat → List ρ → List (Version ρ)
  | _, [] => []
  | n, r :: rs => ⟨n, r⟩ :: numbered (n + 1) rs

def commit (db : Db ρ) (i : Nat) (t : Txn ρ) : Db ρ :=
  { rows := numbered db.next t.made ++ db.rows.filter fun v => !t.gone.contains v.no
    next := db.next + t.made.length
    txns := db.txns.eraseIdx i }

/-- The next statement of a transaction, or its commit. -/
@[grind =] def turn (db : Db ρ) (i : Nat) (t : Txn ρ) : Db ρ :=
  match t.todo, t.snapshot with
  | [], _ => db.commit i t
  | .insert r :: todo, _ => { db with txns := db.txns.set i { t with todo := todo, made := t.made ++ [r] } }
  | .delete p :: _, none => { db with txns := db.txns.set i { t with snapshot := some (db.matching p) } }
  | .delete p :: todo, some nos =>
      if nos.any (db.locked i) then db
      else
        { db with
          txns := db.txns.set i
            { todo := todo, snapshot := none, saw := t.saw ++ nos, gone := t.gone ++ nos.filter db.present,
              made := t.made.filter fun r => !p r } }

@[grind =] def step (db : Db ρ) : Event ρ → Db ρ
  | .start todo => { db with txns := db.txns ++ [{ todo := todo }] }
  | .turn i =>
      match db.txns[i]? with
      | some t => db.turn i t
      | none => db
  | .rollback i => { db with txns := db.txns.eraseIdx i }

/-! ## What the transactions have seen -/

/-- A version that the transaction saw is one it has deleted, or is gone. -/
structure Sound (db : Db ρ) (t : Txn ρ) : Prop where
  old : ∀ n, n ∈ t.saw ∨ n ∈ t.snapshot.getD [] → n < db.next
  settled : ∀ n ∈ t.saw, n ∈ t.gone ∨ ∀ v ∈ db.rows, v.no ≠ n
  gone : ∀ n ∈ t.gone, n ∈ t.saw

structure Good (db : Db ρ) : Prop where
  rows : ∀ v ∈ db.rows, v.no < db.next
  txns : ∀ t ∈ db.txns, Sound db t

variable {db : Db ρ} {t : Txn ρ} {i n : Nat}

theorem mem_numbered {rs : List ρ} {v : Version ρ} (h : v ∈ numbered n rs) : n ≤ v.no ∧ v.no < n + rs.length := by
  induction rs generalizing n with
  | nil => cases h
  | cons r rs ih =>
      cases List.mem_cons.1 h with
      | inl h => rw [h]; exact ⟨Nat.le_refl n, by simp⟩
      | inr h =>
          obtain ⟨hle, hlt⟩ := ih h
          simp only [List.length_cons]
          omega

theorem map_numbered (n : Nat) (rs : List ρ) : (numbered n rs).map (·.row) = rs := by
  induction rs generalizing n with
  | nil => rfl
  | cons r rs ih => rw [numbered, List.map_cons, ih]

theorem mem_matching {p : ρ → Bool} (h : n ∈ db.matching p) : ∃ v ∈ db.rows, v.no = n := by
  obtain ⟨v, hv, hn⟩ := List.mem_map.1 h
  exact ⟨v, (List.mem_filter.1 hv).1, hn⟩

theorem present_iff : db.present n = true ↔ ∃ v ∈ db.rows, v.no = n := by
  simp [present]

theorem Sound.commit {t' : Txn ρ} (h : Sound db t') : Sound (db.commit i t) t' where
  old := fun n hn => Nat.lt_of_lt_of_le (h.old n hn) (Nat.le_add_right _ _)
  settled := fun n hn => by
    refine (h.settled n hn).imp_right fun hno v hv => ?_
    cases List.mem_append.1 hv with
    | inl hv => exact Nat.ne_of_gt (Nat.lt_of_lt_of_le (h.old n (.inl hn)) (mem_numbered hv).1)
    | inr hv => exact hno v (List.mem_filter.1 hv).1
  gone := h.gone

/-- A `DELETE` deletes those of its snapshot that are still there. -/
theorem Sound.delete (h : Sound db t) {nos : List Nat} (hsnap : t.snapshot = some nos) (todo : List (Stmt ρ))
    (made : List ρ) :
    Sound db { todo := todo, saw := t.saw ++ nos, gone := t.gone ++ nos.filter db.present, made := made } where
  old := fun n hn => by
    obtain hn | hn := hn
    · cases List.mem_append.1 hn with
      | inl hn => exact h.old n (.inl hn)
      | inr hn => exact h.old n (.inr (by rw [hsnap]; exact hn))
    · cases hn
  settled := fun n hn => by
    cases List.mem_append.1 hn with
    | inl hn => exact (h.settled n hn).imp_left fun hn => List.mem_append_left _ hn
    | inr hn =>
        by_cases hp : db.present n = true
        · exact .inl (List.mem_append_right _ (List.mem_filter.2 ⟨hn, hp⟩))
        · exact .inr fun v hv hno => hp (present_iff.2 ⟨v, hv, hno⟩)
  gone := fun n hn => by
    cases List.mem_append.1 hn with
    | inl hn => exact List.mem_append_left _ (h.gone n hn)
    | inr hn => exact List.mem_append_right _ (List.mem_filter.1 hn).1

theorem Good.set (h : Good db) {t' : Txn ρ} (ht : Sound db t') : Good { db with txns := db.txns.set i t' } where
  rows := h.rows
  txns := fun u hu => by
    have hsound : Sound db u := (List.mem_or_eq_of_mem_set hu).elim (h.txns u) fun heq => heq ▸ ht
    exact ⟨hsound.old, hsound.settled, hsound.gone⟩

theorem Good.turn (h : Good db) (ht : t ∈ db.txns) : Good (db.turn i t) := by
  have hs := h.txns t ht
  unfold Db.turn
  split
  · refine ⟨fun v hv => ?_, fun u hu => (h.txns u (List.mem_of_mem_eraseIdx hu)).commit⟩
    cases List.mem_append.1 hv with
    | inl hv => exact (mem_numbered hv).2
    | inr hv => exact Nat.lt_of_lt_of_le (h.rows v (List.mem_filter.1 hv).1) (Nat.le_add_right _ _)
  · exact h.set ⟨hs.old, hs.settled, hs.gone⟩
  · refine h.set ⟨fun n hn => ?_, hs.settled, hs.gone⟩
    cases hn with
    | inl hn => exact hs.old n (.inl hn)
    | inr hn =>
        obtain ⟨v, hv, rfl⟩ := mem_matching hn
        exact h.rows v hv
  · next hsnap =>
      split
      · exact h
      · exact h.set (hs.delete hsnap _ _)

theorem Good.step (h : Good db) (e : Event ρ) : Good (db.step e) := by
  cases e with
  | start todo =>
      refine ⟨h.rows, fun t ht => ?_⟩
      cases List.mem_append.1 ht with
      | inl ht =>
          obtain ⟨hold, hsettled, hgone⟩ := h.txns t ht
          exact ⟨hold, hsettled, hgone⟩
      | inr ht =>
          rw [List.mem_singleton.1 ht]
          exact ⟨fun n hn => by simp at hn, nofun, nofun⟩
  | turn i =>
      simp only [Db.step]
      split
      · next t ht => exact h.turn (List.mem_of_getElem? ht)
      · exact h
  | rollback i =>
      refine ⟨h.rows, fun t ht => ?_⟩
      obtain ⟨hold, hsettled, hgone⟩ := h.txns t (List.mem_of_mem_eraseIdx ht)
      exact ⟨hold, hsettled, hgone⟩

/-! ## One row in a slot -/

section Slots

variable (slot : ρ → κ)

/-- At most one committed row in a slot. -/
def Unique (db : Db ρ) : Prop := (db.rows.map fun v => slot v.row).Nodup

/-- Where the event commits an inserted row, the transaction has seen every other committed row of its slot. -/
@[grind =] def Alone (db : Db ρ) : Event ρ → Prop
  | .turn i => ∀ t ∈ db.txns[i]?, t.todo = [] → ∀ r ∈ t.made, ∀ v ∈ db.rows, slot v.row = slot r → v.no ∈ t.saw
  | _ => True

def Single (db : Db ρ) : Prop := ∀ t ∈ db.txns, insertions t.todo + t.made.length ≤ 1

instance [DecidableEq κ] (db : Db ρ) : ∀ e, Decidable (Alone slot db e)
  | .turn i =>
      inferInstanceAs (Decidable (∀ t ∈ db.txns[i]?, t.todo = [] → ∀ r ∈ t.made, ∀ v ∈ db.rows,
        slot v.row = slot r → v.no ∈ t.saw))
  | .start _ => .isTrue trivial
  | .rollback _ => .isTrue trivial

theorem Single.step (h : Single db) {e : Event ρ} (he : e.Single) : Single (db.step e) := by
  cases e with
  | start todo =>
      intro t ht
      cases List.mem_append.1 ht with
      | inl ht => exact h t ht
      | inr ht => rw [List.mem_singleton.1 ht]; exact he
  | rollback i => exact fun t ht => h t (List.mem_of_mem_eraseIdx ht)
  | turn i =>
      simp only [Db.step]
      split
      · next t ht =>
          have hsingle := h t (List.mem_of_getElem? ht)
          unfold Db.turn
          split
          · exact fun u hu => h u (List.mem_of_mem_eraseIdx hu)
          · next r todo _ htodo =>
              intro u hu
              refine (List.mem_or_eq_of_mem_set hu).elim (h u) fun heq => ?_
              rw [heq]
              rw [htodo, insertions] at hsingle
              simp only [List.length_append, List.length_singleton]
              omega
          · intro u hu
            refine (List.mem_or_eq_of_mem_set hu).elim (h u) fun heq => ?_
            rw [heq]
            exact hsingle
          · next p todo nos htodo _ =>
              split
              · exact h
              · intro u hu
                refine (List.mem_or_eq_of_mem_set hu).elim (h u) fun heq => ?_
                rw [heq]
                rw [htodo, insertions] at hsingle
                have hlen := List.length_filter_le (fun r => !p r) t.made
                dsimp only
                omega
      · exact h

variable {slot} {e : Event ρ}

/-- Once a transaction has deleted what it saw, its row has the slot to itself if it saw every row of it. -/
theorem unique_commit (hs : Sound db t) (hmade : t.made.length ≤ 1) (hu : Unique slot db) :
    Unique slot (db.commit i t) ↔ ∀ r ∈ t.made, ∀ v ∈ db.rows, slot v.row = slot r → v.no ∈ t.saw := by
  have hrest : ((db.rows.filter fun v => !t.gone.contains v.no).map fun v => slot v.row).Nodup :=
    hu.sublist (List.filter_sublist.map _)
  unfold Unique Db.commit
  dsimp only
  match hm : t.made, hmade with
  | [], _ => simpa [numbered] using hrest
  | [r], _ =>
      have hslot : (numbered db.next [r]).map (fun v => slot v.row) = [slot r] := rfl
      rw [List.map_append, hslot, List.singleton_append, List.nodup_cons]
      constructor
      · intro h r' hr' v hv heq
        cases List.mem_singleton.1 hr'
        by_contra hsaw
        refine h.1 (List.mem_map.2 ⟨v, List.mem_filter.2 ⟨hv, ?_⟩, heq⟩)
        have hgone : v.no ∉ t.gone := fun hg => hsaw (hs.gone _ hg)
        simpa using hgone
      · refine fun h => ⟨fun hmem => ?_, hrest⟩
        obtain ⟨v, hv, heq⟩ := List.mem_map.1 hmem
        obtain ⟨hrow, hgone⟩ := List.mem_filter.1 hv
        cases hs.settled v.no (h r List.mem_cons_self v hrow heq) with
        | inl hg => simp [hg] at hgone
        | inr hno => exact hno v hrow rfl

theorem unique_step (hg : Good db) (h1 : Single db) (hu : Unique slot db) :
    Unique slot (db.step e) ↔ Alone slot db e := by
  cases e with
  | start todo => exact iff_of_true hu trivial
  | rollback i => exact iff_of_true hu trivial
  | turn i =>
      simp only [Db.step, Alone]
      cases hi : db.txns[i]? with
      | none => exact iff_of_true hu nofun
      | some t =>
          have hmem := List.mem_of_getElem? hi
          have hmade : t.made.length ≤ 1 := by
            have := h1 t hmem
            omega
          have hcommit := unique_commit (i := i) (hg.txns t hmem) hmade hu
          have hidle : ∀ st todo, t.todo = st :: todo → ∀ t' ∈ some t, t'.todo = [] → ∀ r ∈ t'.made, ∀ v ∈ db.rows,
              slot v.row = slot r → v.no ∈ t'.saw := fun st todo htodo t' ht' hnil => by
            cases ht'
            rw [htodo] at hnil
            cases hnil
          dsimp only
          unfold Db.turn
          split
          · next htodo =>
              rw [hcommit]
              constructor
              · intro h t' ht'
                cases ht'
                exact fun _ => h
              · exact fun h => h t rfl htodo
          · next htodo => exact iff_of_true hu (hidle _ _ htodo)
          · next htodo _ => exact iff_of_true hu (hidle _ _ htodo)
          · next htodo _ =>
              refine iff_of_true ?_ (hidle _ _ htodo)
              split
              · exact hu
              · exact hu

/-- Slots have one row at most in every committed state of a run just when every transaction that inserts one has
seen the rows of its slot. -/
theorem unique_iff {es : List (Event ρ)} (hg : Good db) (h1 : Single db) (hes : ∀ e ∈ es, e.Single)
    (hu : Unique slot db) :
    Runs.Always step (Unique slot) db es ↔ Runs.Meets step (Alone slot) db es := by
  induction es generalizing db with
  | nil => exact iff_of_true hu trivial
  | cons e es ih =>
      have hstep := unique_step (e := e) hg h1 hu
      have hnext := fun hu' => @ih (db.step e) (hg.step e) (h1.step (hes e List.mem_cons_self))
        (fun e' he' => hes e' (List.mem_cons_of_mem e he')) hu'
      constructor
      · intro h
        have hu' : Unique slot (db.step e) := h.2.head
        exact ⟨hstep.1 hu', (hnext hu').1 h.2⟩
      · intro h
        have hu' := hstep.2 h.1
        exact ⟨hu, (hnext hu').2 h.2⟩

end Slots

/-! ## Transactions that run alone -/

def ofRows (l : List ρ) : Db ρ := { rows := numbered 0 l, next := l.length }

/-- The turns of the only transaction. -/
@[grind =] def alone (todo : List (Stmt ρ)) : List (Event ρ) :=
  .start todo :: (todo.flatMap fun st =>
    match st with
    | .delete _ => [.turn 0, .turn 0]
    | .insert _ => [.turn 0]) ++ [.turn 0]

theorem good_ofRows (l : List ρ) : Good (ofRows l) :=
  ⟨fun v hv => by simpa [ofRows] using (mem_numbered hv).2, nofun⟩

theorem single_ofRows (l : List ρ) : Single (ofRows l) := nofun

theorem rows_ofRows (l : List ρ) : (ofRows l).rows.map (·.row) = l := map_numbered 0 l

theorem nodup_numbered (n : Nat) (l : List ρ) : ((numbered n l).map (·.no)).Nodup := by
  induction l generalizing n with
  | nil => exact List.nodup_nil
  | cons r l ih =>
      refine List.nodup_cons.2 ⟨fun h => ?_, ih (n + 1)⟩
      obtain ⟨v, hv, hn⟩ := List.mem_map.1 h
      have := (mem_numbered hv).1
      dsimp only at hn
      omega

/-- The versions that a `DELETE` leaves. -/
theorem filter_matching (h : (db.rows.map (·.no)).Nodup) (p : ρ → Bool) :
    (db.rows.filter fun v => !((db.matching p).filter db.present).contains v.no) = db.rows.filter fun v => !p v.row := by
  refine List.filter_congr fun v hv => ?_
  have hmem : v.no ∈ (db.matching p).filter db.present ↔ p v.row = true := by
    rw [List.mem_filter, present_iff, and_iff_left ⟨v, hv, rfl⟩, matching, List.mem_map]
    constructor
    · rintro ⟨u, hu, hno⟩
      obtain ⟨hrow, hp⟩ := List.mem_filter.1 hu
      rwa [← List.inj_on_of_nodup_map h hrow hv hno]
    · exact fun hp => ⟨v, List.mem_filter.2 ⟨hv, hp⟩, rfl⟩
  have hcontains : ((db.matching p).filter db.present).contains v.no = p v.row := by
    rw [Bool.eq_iff_iff, List.contains_iff_mem]
    exact hmem
  rw [hcontains]

theorem map_filter_row (l : List (Version ρ)) (p : ρ → Bool) :
    (l.filter fun v => p v.row).map (·.row) = (l.map (·.row)).filter p := (List.filter_map ..).symm

/-- Nothing is locked for the only transaction. -/
theorem locked_alone (rows : List (Version ρ)) (n : Nat) (t : Txn ρ) (nos : List Nat) :
    nos.any (locked { rows := rows, next := n, txns := [t] } 0) = false :=
  List.any_eq_false.2 fun _ _ => Bool.false_ne_true

/-- A transaction that runs alone deletes the rows that match. -/
theorem exec_delete (l : List ρ) (p : ρ → Bool) :
    (Runs.exec step (ofRows l) (alone [.delete p])).rows.map (·.row) = l.filter fun r => !p r := by
  have hrows := @filter_matching ρ (ofRows l) (nodup_numbered 0 l) p
  have hkept := map_filter_row (ofRows l).rows fun r => !p r
  rw [rows_ofRows] at hkept
  rw [← hkept, ← hrows]
  simp [alone, step, turn, locked_alone, commit, numbered, ofRows]
  rfl

theorem exec_replace (l : List ρ) (p : ρ → Bool) (r : ρ) :
    (Runs.exec step (ofRows l) (alone [.delete p, .insert r])).rows.map (·.row) = r :: l.filter fun r => !p r := by
  have hrows := @filter_matching ρ (ofRows l) (nodup_numbered 0 l) p
  have hkept := map_filter_row (ofRows l).rows fun r => !p r
  rw [rows_ofRows] at hkept
  rw [← hkept, ← hrows]
  simp [alone, step, turn, locked_alone, commit, numbered, ofRows]
  rfl

end Db

end ReadCommitted
