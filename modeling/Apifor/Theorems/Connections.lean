import Apifor.Db.Org
import Apifor.Lib.ReadCommitted

/-!
# One connection in a slot

The writers of connections delete and insert in a transaction, and no constraint of the table stands behind
them. Interleaved at READ COMMITTED they keep one connection in a slot just when each of them has seen, in the
snapshot of its `DELETE`, every connection of its slot that is committed when it commits.
-/

namespace Apifor

namespace Slots

open ReadCommitted

variable {B : Id} {l : List Connection} {w : World}

/-! ## The writers -/

/-- The writers; the callers of `SetTypedConnection` take the type from a table that has no `ai_engine`. -/
inductive Write
  | setAIEngine (kind provider label : String)
  | setCodeProviderToken (provider label token username kind : String)
  | setTaskSource (provider label : String)
  | setTypedConnection (ctype : ConnectionType) (provider label : String) (h : ctype ≠ .ai_engine)
  | deleteCodeProvider (provider : String)
  | deleteTaskSource (provider : String)
  | deleteTypedConnection (ctype : ConnectionType) (provider : String)

/-- The row that a writer inserts. -/
def connection (B id : Id) (now : Time) (type : ConnectionType) (provider label : String) (st : ConnectionSettings) :
    Connection :=
  { id := id, orgId := B, type := type, provider := provider, label := some label, status := .ok, settings := st,
    createdAt := now }

/-- The statements of a writer. -/
def Write.todo (B id : Id) (now : Time) : Write → List (Stmt Connection)
  | .setAIEngine kind provider label =>
      [.delete fun c => decide (c.orgId = B ∧ c.type = .ai_engine),
        .insert (connection B id now .ai_engine provider label { kind := some kind })]
  | .setCodeProviderToken provider label token username kind =>
      [.delete (DB.isSlot B .code provider),
        .insert (connection B id now .code provider label
          { token := some token, username := some username, kind := some kind })]
  | .setTaskSource provider label =>
      [.delete (DB.isSlot B .tasks provider), .insert (connection B id now .tasks provider label {})]
  | .setTypedConnection ctype provider label _ =>
      [.delete (DB.isSlot B ctype provider), .insert (connection B id now ctype provider label {})]
  | .deleteCodeProvider provider => [.delete (DB.isSlot B .code provider)]
  | .deleteTaskSource provider => [.delete (DB.isSlot B .tasks provider)]
  | .deleteTypedConnection ctype provider => [.delete (DB.isSlot B ctype provider)]

/-- The function of the database behind a writer. -/
def Write.program (B : Id) : Write → SettingsM B Bool
  | .setAIEngine kind provider label => Except.isOk <$> DB.setAIEngine (B := B) kind provider label
  | .setCodeProviderToken provider label token username kind =>
      Except.isOk <$> DB.setCodeProviderToken (B := B) provider label token username kind
  | .setTaskSource provider label => Except.isOk <$> DB.setTaskSource (B := B) provider label
  | .setTypedConnection ctype provider label _ => Except.isOk <$> DB.setTypedConnection (B := B) ctype provider label
  | .deleteCodeProvider provider => Except.isOk <$> DB.deleteConnection (B := B) "DeleteCodeProvider" .code provider
  | .deleteTaskSource provider => Except.isOk <$> DB.deleteConnection (B := B) "DeleteTaskSource" .tasks provider
  | .deleteTypedConnection ctype provider =>
      Except.isOk <$> DB.deleteConnection (B := B) "DeleteTypedConnection" ctype provider

/-! ## A writer alone -/

/-- The rows that `old` selects belong to the org. -/
def OwnRows (B : Id) (old : Connection → Bool) : Prop := ∀ c, old c = true → c.orgId = B

theorem ownRows_isSlot (B : Id) (type : ConnectionType) (provider : String) : OwnRows B (DB.isSlot B type provider) :=
  fun _ h => (of_decide_eq_true h).1

theorem ownRows_aiEngine (B : Id) : OwnRows B fun c => decide (c.orgId = B ∧ c.type = .ai_engine) :=
  fun _ h => (of_decide_eq_true h).1

theorem delete_rows (hB : B ≠ "") (rls : Bool) {old : Connection → Bool} (ho : OwnRows B old) (s : Store) :
    ((Apifor.delete (withOrg rls B) .connection old s).1 .connection).rows =
      (s .connection).rows.filter fun c => !old c := by
  refine List.filter_congr fun c _ => ?_
  dsimp only
  cases hold : old c with
  | false => rw [Bool.and_false]
  | true =>
      have hwrites : (withOrg rls B).writes s .connection c = true := by
        cases rls with
        | false => rfl
        | true => simp [withOrg, Scope.writes, Tbl.isGlobal, owns, hB, ho c hold]
      rw [hwrites]
      rfl

theorem insert_rows {sc : Scope} {r : Connection} {s s' : Store} (h : Apifor.insert sc .connection r s = .ok s') :
    (s' .connection).rows = r :: (s .connection).rows := by
  unfold Apifor.insert at h
  split at h
  · cases h
  · split_ifs at h
    split at h
    · cases h
    · next x hx =>
        cases h
        exact Table.rows_insert hx

/-- The rows after the statements, run alone. -/
def after (l : List Connection) (todo : List (Stmt Connection)) : List Connection :=
  (Runs.exec Db.step (Db.ofRows l) (Db.alone todo)).rows.map (·.row)

theorem run_body (sc : Scope) (now : Time) (s : Store) (old : Connection → Bool) (id : Id) (type : ConnectionType)
    (provider label : String) (st : ConnectionSettings) :
    (do let _ ← Tx.delete .connection old
        let now ← Tx.now
        Tx.insert .connection (connection B id now type provider label st)
        pure id : Tx settings B Id).run sc now s =
      (Apifor.insert sc .connection (connection B id now type provider label st)
        (Apifor.delete sc .connection old s).1).map fun s => (s, id) := by
  obtain ⟨r, hr⟩ : ∃ r, Apifor.insert sc .connection (connection B id now type provider label st)
    (Apifor.delete sc .connection old s).1 = r := ⟨_, rfl⟩
  have hinsert : (Tx.insert .connection (connection B id now type provider label st) rfl : Tx settings B Unit).run sc now
      (Apifor.delete sc .connection old s).1 = r.map fun s => (s, ()) := by rw [← hr]; rfl
  have hdelete : (Tx.delete .connection old rfl nofun : Tx settings B Nat).run sc now s =
      .ok (Apifor.delete sc .connection old s) := rfl
  have hnow : (Tx.now : Tx settings B Time).run sc now (Apifor.delete sc .connection old s).1 =
      .ok ((Apifor.delete sc .connection old s).1, now) := rfl
  rw [hr, Tx.run_bind, hdelete]
  dsimp only
  rw [Tx.run_bind, hnow]
  dsimp only
  rw [Tx.run_bind, hinsert]
  cases r <;> rfl

theorem run_replace (hB : B ≠ "") (rls : Bool) {old : Connection → Bool} (ho : OwnRows B old) (n : String)
    (type : ConnectionType) (provider label : String) (st : ConnectionSettings) (w : World) :
    ∃ id w' x, ((DB.replaceConnection (B := B) n old type provider label st).cmd rls).run w = (w', some x) ∧
      (w'.db .connection).rows =
        if x.isOk then
          after (w.db .connection).rows [.delete old, .insert (connection B id w.now type provider label st)]
        else (w.db .connection).rows := by
  have hnew : (newID "con").run w = ({ w with drawn := w.drawn + 1 }, some ("con_" ++ w.ulid w.drawn)) := rfl
  have hrun : ((DB.replaceConnection (B := B) n old type provider label st).cmd rls).run w = _ :=
    (Prog.run_bind_of_eq hnew).trans (run_exec _ _ _)
  have hbody := run_body (B := B) (withOrg rls B) w.now w.db old ("con_" ++ w.ulid w.drawn) type provider label st
  refine ⟨"con_" ++ w.ulid w.drawn, ?_⟩
  obtain ⟨r, hr⟩ : ∃ r, r = Apifor.insert (withOrg rls B) .connection
    (connection B ("con_" ++ w.ulid w.drawn) w.now type provider label st)
    (Apifor.delete (withOrg rls B) .connection old w.db).1 := ⟨_, rfl⟩
  rw [← hr] at hbody
  cases r with
  | error e => exact ⟨{ w with drawn := w.drawn + 1 }, .error e, hrun.trans (by erw [hbody]; rfl), rfl⟩
  | ok s' =>
      refine ⟨{ w with drawn := w.drawn + 1, db := s' }, .ok _, hrun.trans (by erw [hbody]; rfl), ?_⟩
      exact (insert_rows hr.symm).trans ((congrArg _ (delete_rows hB rls ho w.db)).trans (Db.exec_replace _ _ _).symm)

theorem run_delete (hB : B ≠ "") (rls : Bool) (n : String) (type : ConnectionType) (provider : String) (w : World) :
    ∃ w' x, ((DB.deleteConnection (B := B) n type provider).cmd rls).run w = (w', some x) ∧
      (w'.db .connection).rows =
        if x.isOk then after (w.db .connection).rows [.delete (DB.isSlot B type provider)]
        else (w.db .connection).rows := by
  refine ⟨_, _, run_exec _ _ w, ?_⟩
  exact (delete_rows hB rls (ownRows_isSlot B type provider) w.db).trans (Db.exec_delete _ _).symm

/-- A writer that runs alone does what its statements do, or nothing. -/
theorem program_alone (hB : B ≠ "") (rls : Bool) (x : Write) (w : World) :
    ∃ id w' ok, ((x.program B).cmd rls).run w = (w', some ok) ∧ (w'.db .connection).rows =
      if ok then after (w.db .connection).rows (x.todo B id w.now) else (w.db .connection).rows := by
  have hset : ∀ {α : Type} {c : SettingsM B (Except DbErr α)} {todo : Id → List (Stmt Connection)},
      (∃ id w' y, (c.cmd rls).run w = (w', some y) ∧ (w'.db .connection).rows =
        if y.isOk then after (w.db .connection).rows (todo id) else (w.db .connection).rows) →
      ∃ id w' ok, ((Except.isOk <$> c).cmd rls).run w = (w', some ok) ∧ (w'.db .connection).rows =
        if ok then after (w.db .connection).rows (todo id) else (w.db .connection).rows := by
    rintro α c todo ⟨id, w', y, hrun, hrows⟩
    exact ⟨id, w', y.isOk, Prog.run_bind_of_eq hrun, hrows⟩
  cases x with
  | setAIEngine kind provider label => exact hset (run_replace hB rls (ownRows_aiEngine B) _ _ _ _ _ w)
  | setCodeProviderToken provider label token username kind =>
      exact hset (run_replace hB rls (ownRows_isSlot B _ _) _ _ _ _ _ w)
  | setTaskSource provider label => exact hset (run_replace hB rls (ownRows_isSlot B _ _) _ _ _ _ _ w)
  | setTypedConnection ctype provider label => exact hset (run_replace hB rls (ownRows_isSlot B _ _) _ _ _ _ _ w)
  | deleteCodeProvider provider => exact hset ⟨"", run_delete hB rls _ _ _ w⟩
  | deleteTaskSource provider => exact hset ⟨"", run_delete hB rls _ _ _ w⟩
  | deleteTypedConnection ctype provider => exact hset ⟨"", run_delete hB rls _ _ _ w⟩

/-! ## Writers together -/

/-- An org has one AI engine, and one connection of a type with a provider. -/
structure OneEach (db : Db Connection) : Prop where
  engine : ∀ org, (db.rows.filter fun v => decide (v.row.orgId = org ∧ v.row.type = .ai_engine)).length ≤ 1
  provider : ∀ org type provider, (db.rows.filter fun v => DB.isSlot org type provider v.row).length ≤ 1

/-- The slot of a connection. -/
def slot (c : Connection) : Id × Option (ConnectionType × String) :=
  (c.orgId, if c.type = .ai_engine then none else some (c.type, c.provider))

/-- A writer begins its transaction, a transaction takes a turn, or it is rolled back. -/
inductive Act
  | write (B id : Id) (now : Time) (x : Write)
  | turn (i : Nat)
  | rollback (i : Nat)

def Act.event : Act → ReadCommitted.Event Connection
  | .write B id now x => .start (x.todo B id now)
  | .turn i => .turn i
  | .rollback i => .rollback i

theorem filter_le_one {α κ : Type} {f : α → κ} {l : List α} (h : (l.map f).Nodup) {p : α → Bool}
    (hp : ∀ a b, p a = true → p b = true → f a = f b) : (l.filter p).length ≤ 1 := by
  have hsub : ((l.filter p).map f).Nodup := h.sublist (List.filter_sublist.map f)
  match hl : l.filter p with
  | [] => exact Nat.zero_le 1
  | [a] => exact Nat.le_refl 1
  | a :: b :: rest =>
      have hmem : ∀ x ∈ l.filter p, p x = true := fun x hx => (List.mem_filter.1 hx).2
      rw [hl] at hsub hmem
      have heq := hp a b (hmem a (by simp)) (hmem b (by simp))
      simp [heq] at hsub

theorem nodup_of_filter {α κ : Type} {f : α → κ} {l : List α}
    (h : ∀ a ∈ l, ∃ p : α → Bool, (∀ b, p b = true ↔ f b = f a) ∧ (l.filter p).length ≤ 1) :
    (l.map f).Nodup := by
  induction l with
  | nil => exact List.nodup_nil
  | cons a l ih =>
      rw [List.map_cons, List.nodup_cons]
      constructor
      · intro hmem
        obtain ⟨b, hb, heq⟩ := List.mem_map.1 hmem
        obtain ⟨p, hp, hlen⟩ := h a List.mem_cons_self
        rw [List.filter_cons_of_pos ((hp a).2 rfl), List.length_cons] at hlen
        have hpos : 0 < (l.filter p).length := List.length_pos_of_mem (List.mem_filter.2 ⟨hb, (hp b).2 heq⟩)
        omega
      · refine ih fun b hb => ?_
        obtain ⟨p, hp, hlen⟩ := h b (List.mem_cons_of_mem a hb)
        exact ⟨p, hp, Nat.le_trans ((List.sublist_cons_self a l).filter p).length_le hlen⟩

/-- One row in a slot is one engine for an org, and one connection of a type with a provider. -/
theorem oneEach_iff (db : Db Connection) : OneEach db ↔ Db.Unique slot db := by
  constructor
  · intro h
    refine nodup_of_filter fun a _ => ?_
    by_cases ha : a.row.type = .ai_engine
    · refine ⟨_, fun b => ?_, h.engine a.row.orgId⟩
      simp only [slot, ha, decide_eq_true_eq, Prod.mk.injEq, if_true]
      refine and_congr_right fun _ => ⟨fun hb => if_pos hb, fun hb => ?_⟩
      by_contra hc
      rw [if_neg hc] at hb
      cases hb
    · refine ⟨_, fun b => ?_, h.provider a.row.orgId a.row.type a.row.provider⟩
      simp only [slot, DB.isSlot, ha, decide_eq_true_eq, Prod.mk.injEq, if_false]
      refine and_congr_right fun _ => ?_
      constructor
      · rintro ⟨htype, hprovider⟩
        rw [if_neg (htype ▸ ha), htype, hprovider]
      · intro hb
        split_ifs at hb
        obtain ⟨htype, hprovider⟩ := Prod.mk.inj (Option.some.inj hb)
        exact ⟨htype, hprovider⟩
  · intro h
    refine ⟨fun org => filter_le_one h fun a b ha hb => ?_,
      fun org type provider => filter_le_one h fun a b ha hb => ?_⟩
    · obtain ⟨horg, htype⟩ := of_decide_eq_true ha
      obtain ⟨horg', htype'⟩ := of_decide_eq_true hb
      simp only [slot, horg, horg', htype, htype', if_true]
    · obtain ⟨horg, htype, hprovider⟩ := of_decide_eq_true ha
      obtain ⟨horg', htype', hprovider'⟩ := of_decide_eq_true hb
      simp only [slot, horg, horg', htype, htype', hprovider, hprovider']

theorem single_event (a : Act) : a.event.Single := by
  cases a with
  | write B id now x => cases x <;> first | exact Nat.le_refl 1 | exact Nat.zero_le 1
  | turn i => trivial
  | rollback i => trivial

/-- Interleaved writers keep one connection in a slot, in every committed state, just when each that inserts one has
seen, in the snapshot of its `DELETE`, every connection of the slot that is committed when it commits. -/
theorem one_each_iff {l : List Connection} (h : OneEach (Db.ofRows l)) (acts : List Act) :
    Runs.Always Db.step OneEach (Db.ofRows l) (acts.map Act.event) ↔
      Runs.Meets Db.step (Db.Alone slot) (Db.ofRows l) (acts.map Act.event) := by
  have hsingle : ∀ e ∈ acts.map Act.event, e.Single := fun e he => by
    obtain ⟨a, -, rfl⟩ := List.mem_map.1 he
    exact single_event a
  have hiff := Db.unique_iff (Db.good_ofRows l) (Db.single_ofRows l) hsingle ((oneEach_iff _).1 h)
  rw [← hiff]
  exact ⟨fun ha => ha.mono fun db => (oneEach_iff db).1, fun ha => ha.mono fun db => (oneEach_iff db).2⟩

namespace Sample

def engine (id label : String) : Connection := connection "org_a" id 0 .ai_engine "anthropic" label {}

/-- Two users set the AI engine at once: the second waits for the first to delete the old one. -/
def race : List Act :=
  [.write "org_a" "con_1" 1 (.setAIEngine "api" "anthropic" "A"),
    .write "org_a" "con_2" 1 (.setAIEngine "api" "anthropic" "B"),
    .turn 0, .turn 0, .turn 1, .turn 1, .turn 0, .turn 0, .turn 0, .turn 0, .turn 0]

/-- The second begins when the first has committed. -/
def inTurn : List Act :=
  [.write "org_a" "con_1" 1 (.setAIEngine "api" "anthropic" "A"), .turn 0, .turn 0, .turn 0, .turn 0,
    .write "org_a" "con_2" 1 (.setAIEngine "api" "anthropic" "B"), .turn 0, .turn 0, .turn 0, .turn 0]

end Sample

theorem oneEach_engine : OneEach (Db.ofRows [Sample.engine "con_0" "old"]) :=
  (oneEach_iff _).2 (List.nodup_singleton _)

/-- Two writers of the AI engine leave two of them. -/
theorem two_engines : OneEach (Db.ofRows [Sample.engine "con_0" "old"]) ∧
    ¬ Runs.Always Db.step OneEach (Db.ofRows [Sample.engine "con_0" "old"]) (Sample.race.map Act.event) := by
  refine ⟨oneEach_engine, fun h => ?_⟩
  exact absurd (h.last.engine "org_a") (by decide +kernel)

theorem one_each_iff_sample :
    Runs.Always Db.step OneEach (Db.ofRows [Sample.engine "con_0" "old"]) (Sample.inTurn.map Act.event) :=
  (one_each_iff oneEach_engine Sample.inTurn).2 (by decide +kernel)

end Slots

end Apifor
