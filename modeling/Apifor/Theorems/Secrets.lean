import Apifor.Theorems.Vault

/-!
# The vault is a map

Puts and deletes that are executed one after another, and what `get` and `list` show afterwards.
-/

namespace Executor

namespace Vault

variable {c : Crates} {m m' : Machine c} {v : Vault} {n : String} {g : Grain}

/-! ## Puts and deletes -/

inductive Change
  | put (nonce : Nonce) (name value kind : String)
  | delete (name : String)

namespace Change

def name : Change → String
  | put _ n _ _ => n
  | delete n => n

def run (g : Grain) (v : Vault) : Change → Task c Unit
  | put nonce name value kind => do
      let _ ← v.put g nonce name value kind
  | delete name => do
      let _ ← Vault.delete g name

/-- A put fails, and stores nothing, when its value cannot be encrypted. -/
def succeeds (c : Crates) (v : Vault) : Change → Bool
  | put nonce _ value _ => (c.encrypt v.key nonce (utf8 value)).isOk
  | delete _ => true

end Change

def execute (g : Grain) (v : Vault) : List Change → Task c Unit
  | [] => pure ()
  | x :: xs => do
      x.run g v
      execute g v xs

/-- The last change of a name. -/
def lastChange (c : Crates) (v : Vault) (xs : List Change) (n : String) : Option Change :=
  (xs.filter fun x => x.succeeds c v && decide (x.name = n)).getLast?

/-! ## What a change does -/

theorem run_save (hc : c.Lawful) (s : Store) : ∃ m', (save g s).run m = (m', some (.ok ())) ∧ m'.store = s := by
  cases g with
  | whole => exact ⟨_, rfl, Machine.store_setJson hc m s⟩
  | files => exact ⟨_, rfl, Machine.store_setJson hc (m.setJson c.emptyFile) s⟩

/-- The entry that a put makes. -/
def entryOf (c : Crates) (nonce : Nonce) (value kind : String) (ct : Base64.Bytes) : Entry :=
  ⟨Base64.encode nonce.1, Base64.encode ct, kind, fingerprint c value⟩

/-- What a change leaves of the name's entry. -/
inductive Leaves (c : Crates) (v : Vault) : Change → Option Entry → Prop
  | put {nonce : Nonce} {name value kind : String} {ct : Base64.Bytes} (h : c.encrypt v.key nonce (utf8 value) = .ok ct) :
      Leaves c v (.put nonce name value kind) (some (entryOf c nonce value kind ct))
  | delete {name : String} : Leaves c v (.delete name) none

theorem run_change (hc : c.Lawful) (x : Change) (m : Machine c) :
    ∃ m', (x.run g v).run m = (m', some ()) ∧
      (x.succeeds c v = false ∧ m'.store = m.store ∨
        x.succeeds c v = true ∧ ∃ e, Leaves c v x e ∧
          ∀ n, m'.store.secrets.get? n = if x.name = n then e else m.store.secrets.get? n) := by
  cases x with
  | put nonce name value kind =>
      simp only [Change.run, put, Change.succeeds, Change.name]
      cases he : c.encrypt v.key nonce (utf8 value) with
      | error e => exact ⟨m, rfl, .inl ⟨rfl, rfl⟩⟩
      | ok ct =>
          obtain ⟨m', hrun, hstore⟩ := run_save (g := g) (m := m) hc (m.store.insert name (entryOf c nonce value kind ct))
          refine ⟨m', ?_, .inr ⟨rfl, _, .put he, fun n => ?_⟩⟩
          · simp only [load, Prog.bind_def, Prog.bind_assoc, Prog.run_bind, Prog.run_lift]
            rw [show entryOf c nonce value kind ct = ⟨Base64.encode nonce.1, Base64.encode ct, kind, fingerprint c value⟩
              from rfl] at hrun
            rw [hrun]
            rfl
          · rw [hstore]
            exact SortedMap.get?_insert ..
  | delete name =>
      obtain ⟨m', hrun, hstore⟩ := run_save (g := g) (m := m) hc (m.store.remove name)
      refine ⟨m', ?_, .inr ⟨rfl, _, .delete, fun n => ?_⟩⟩
      · simp only [Change.run, Vault.delete, load, Prog.bind_def, Prog.bind_assoc, Prog.run_bind, Prog.run_lift]
        rw [hrun]
        rfl
      · rw [hstore]
        exact SortedMap.get?_erase ..

/-! ## What a sequence of changes does -/

/-- The entry of a name after its last change. -/
def Left (c : Crates) (v : Vault) (s s' : Store) (n : String) : Option Change → Prop
  | none => s'.secrets.get? n = s.secrets.get? n
  | some x => ∃ e, Leaves c v x e ∧ s'.secrets.get? n = e

theorem lastChange_cons (x : Change) (xs : List Change) (n : String) :
    lastChange c v (x :: xs) n =
      match lastChange c v xs n with
      | some y => some y
      | none => if x.succeeds c v = true ∧ x.name = n then some x else none := by
  unfold lastChange
  by_cases h : x.succeeds c v = true ∧ x.name = n
  · rw [List.filter_cons_of_pos (by simp [h]), List.getLast?_cons, if_pos h]
    cases (xs.filter fun x => x.succeeds c v && decide (x.name = n)).getLast? <;> rfl
  · rw [List.filter_cons_of_neg (by simpa using h), if_neg h]
    cases (xs.filter fun x => x.succeeds c v && decide (x.name = n)).getLast? <;> rfl

theorem run_execute (hc : c.Lawful) (xs : List Change) (m : Machine c) :
    ∃ m', (execute g v xs).run m = (m', some ()) ∧ ∀ n, Left c v m.store m'.store n (lastChange c v xs n) := by
  induction xs generalizing m with
  | nil => exact ⟨m, rfl, fun _ => rfl⟩
  | cons x xs ih =>
      obtain ⟨m1, hrun1, hx⟩ := run_change (g := g) (v := v) hc x m
      obtain ⟨m', hrun, hxs⟩ := ih m1
      refine ⟨m', (Prog.run_bind_of_eq hrun1).trans hrun, fun n => ?_⟩
      have hn := hxs n
      rw [lastChange_cons]
      cases hl : lastChange c v xs n with
      | some y =>
          rw [hl] at hn
          exact hn
      | none =>
          rw [hl] at hn
          rcases hx with ⟨hs, hstore⟩ | ⟨hs, e, he, hget⟩
          · rw [if_neg (by simp [hs])]
            exact hn.trans (by rw [hstore])
          · by_cases hname : x.name = n
            · rw [if_pos ⟨hs, hname⟩]
              exact ⟨e, he, hn.trans ((hget n).trans (if_pos hname))⟩
            · rw [if_neg fun h => hname h.2]
              exact hn.trans ((hget n).trans (if_neg hname))

/-! ## What is shown -/

/-- What `get` answers on a machine; the outer `none` is a panic. -/
def shown (v : Vault) (m : Machine c) (n : String) : Option (Option String) := ((v.get n).run m).2

/-- The kind and the fingerprint that `list` shows of a name. -/
def Listed (m : Machine c) (n kind fp : String) : Prop := ∃ l, (Vault.list.run m).2 = some l ∧ (n, kind, fp) ∈ l

theorem shown_eq (m : Machine c) (n : String) :
    shown v m n = match m.store.secrets.get? n with | none => some none | some e => reveal c v e := by
  simp only [shown, get, load, Prog.bind_def, Prog.run_bind, Prog.run_lift]
  cases m.store.secrets.get? n with
  | none => rfl
  | some e =>
      dsimp only
      cases reveal c v e <;> rfl

theorem listed_iff {kind fp : String} :
    Listed m n kind fp ↔ ∃ e, m.store.secrets.get? n = some e ∧ e.kind = kind ∧ e.fingerprint = fp := by
  have hrun : (Vault.list.run m).2 = some (m.store.secrets.entries.map fun e => (e.1, e.2.kind, e.2.fingerprint)) := rfl
  simp only [Listed, hrun, Option.some.injEq, exists_eq_left', List.mem_map, Prod.mk.injEq]
  constructor
  · rintro ⟨⟨k, e⟩, he, rfl, hkind, hfp⟩
    exact ⟨e, SortedMap.mem_entries.1 he, hkind, hfp⟩
  · rintro ⟨e, he, hkind, hfp⟩
    exact ⟨(n, e), SortedMap.mem_entries.2 he, rfl, hkind, hfp⟩

/-- What was encrypted under the vault's key is revealed. -/
theorem reveal_entryOf (hc : c.Lawful) {nonce : Nonce} {value kind : String} {ct : Base64.Bytes}
    (h : c.encrypt v.key nonce (utf8 value) = .ok ct) : reveal c v (entryOf c nonce value kind ct) = some (some value) := by
  have hnonce : nonceOf nonce.1 = some nonce := dif_pos nonce.2
  simp only [reveal, entryOf, Base64.decode_encode, hnonce, Option.map_some, hc.decrypt_encrypt _ _ _ _ h, Option.bind_some,
    fromUtf8_utf8]

/-! ## The map -/

/-- What `get` and `list` show of a name after its last change, on `m'`, and of a name without one as on `m`. -/
def Mapped (v : Vault) (m m' : Machine c) (n : String) : Option Change → Prop
  | some (.put _ _ value kind) =>
      shown v m' n = some (some value) ∧ ∀ k f, Listed m' n k f ↔ k = kind ∧ f = fingerprint c value
  | some (.delete _) => shown v m' n = some none ∧ ∀ k f, ¬ Listed m' n k f
  | none => shown v m' n = shown v m n ∧ ∀ k f, Listed m' n k f ↔ Listed m n k f

theorem Left.mapped (hc : c.Lawful) {o : Option Change} (h : Left c v m.store m'.store n o) : Mapped v m m' n o := by
  cases o with
  | none =>
      have hget : m'.store.secrets.get? n = m.store.secrets.get? n := h
      exact ⟨by rw [shown_eq, shown_eq, hget], fun k f => by rw [listed_iff, listed_iff, hget]⟩
  | some x =>
      obtain ⟨e, he, hget⟩ := h
      cases he with
      | put henc =>
          refine ⟨?_, fun k f => ?_⟩
          · rw [shown_eq, hget]
            exact reveal_entryOf hc henc
          rw [listed_iff, hget]
          constructor
          · rintro ⟨e, he, rfl, rfl⟩
            cases he
            exact ⟨rfl, rfl⟩
          · rintro ⟨rfl, rfl⟩
            exact ⟨_, rfl, rfl, rfl⟩
      | delete =>
          refine ⟨by rw [shown_eq, hget], fun k f hl => ?_⟩
          obtain ⟨e, he, -⟩ := listed_iff.1 hl
          rw [hget] at he
          cases he

/-- After any sequence of puts and deletes the vault shows, of every name, its last change, and `list` has no
name twice. -/
theorem vault_map (hc : c.Lawful) (g : Grain) (v : Vault) (m : Machine c) (xs : List Change) :
    ∃ m', (execute g v xs).run m = (m', some ()) ∧ (∀ n, Mapped v m m' n (lastChange c v xs n)) ∧
      ∀ l, (Vault.list.run m').2 = some l → (l.map (·.1)).Nodup := by
  obtain ⟨m', hrun, hleft⟩ := run_execute (g := g) (v := v) hc xs m
  refine ⟨m', hrun, fun n => (hleft n).mapped hc, fun l hl => ?_⟩
  cases hl
  rw [List.map_map]
  exact m'.store.secrets.nodup_keys

theorem vault_map_sample :
    ∃ m', (execute .files ⟨zeroKey⟩ [.put zeroNonce "github" "a" "token", .put zeroNonce "anthropic" "b" "api_key",
        .put zeroNonce "github" "z" "pat", .delete "anthropic"]).run noFiles = (m', some ()) ∧
      shown ⟨zeroKey⟩ m' "github" = some (some "z") ∧ shown ⟨zeroKey⟩ m' "anthropic" = some none := by
  obtain ⟨m', hrun, hmap, -⟩ := vault_map sample_lawful .files ⟨zeroKey⟩ noFiles
    [.put zeroNonce "github" "a" "token", .put zeroNonce "anthropic" "b" "api_key",
      .put zeroNonce "github" "z" "pat", .delete "anthropic"]
  refine ⟨m', hrun, ?_, ?_⟩
  · exact (hmap "github").1
  · exact (hmap "anthropic").1

end Vault

end Executor
