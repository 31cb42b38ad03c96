import Apifor.Executor.Vault

/-!
# A vault whose process dies

Both files of the vault are truncated and then written in place. A process that dies between the two
leaves an empty file: an empty `vault.key` can no longer be opened, and an empty `vault.json` reads as
a vault without secrets. At every other point what was stored is still there.
-/

namespace Executor

open Base64 (Bytes)

variable {c : Crates}

/-! ## Sessions -/

inductive Op
  | opened (random : Key)
  | put (nonce : Nonce) (name value kind : String)
  | delete (name : String)

/-- The secret that an operation is about. -/
def Op.target : Op → Option String
  | .opened _ => none
  | .put _ name _ _ => some name
  | .delete name => some name

/-- The files, and the vault that the process has open. -/
structure Session (c : Crates) where
  machine : Machine c
  vault : Option Vault

def Op.task (vault : Option Vault) : Op → Task c (Option Vault)
  | .opened random => (Vault.open random).bind fun r => .done r.toOption
  | .put nonce name value kind =>
      match vault with
      | some v => (v.put .files nonce name value kind).bind fun _ => .done vault
      | none => .done vault
  | .delete name =>
      match vault with
      | some _ => (Vault.delete .files name).bind fun _ => .done vault
      | none => .done vault

namespace Session

def step (s : Session c) (op : Op) : Session c :=
  match (op.task s.vault).run s.machine with
  | (m, some v) => ⟨m, v⟩
  | (m, none) => ⟨m, none⟩

/-- A machine on which no vault has been opened. -/
def fresh (c : Crates) : Session c := ⟨⟨none, none, .empty, []⟩, none⟩

def after (c : Crates) (ops : List Op) : Session c := ops.foldl step (fresh c)

/-- What is on the disk when the process dies after so many steps of an operation. -/
def crashed (s : Session c) (op : Op) (steps : Nat) : Machine c := ((op.task s.vault).ticks steps s.machine).1

def Stored (s : Session c) (name value : String) : Prop :=
  ∃ v, s.vault = some v ∧ ((v.get name).run s.machine).2 = some (some value)

/-- A later `put` by the restarted process. -/
structure Put where
  nonce : Nonce
  name : String
  value : String
  kind : String

def Put.run (v : Vault) (m : Machine c) (p : Put) : Machine c :=
  ((v.put .files p.nonce p.name p.value p.kind).run m).1

/-- After the crash the vault opens, and what was stored before, apart from the target of the
interrupted operation and what is put anew, is retrieved with its value. -/
def Survives (s : Session c) (op : Op) (steps : Nat) : Prop :=
  ∀ random, ∃ m v, (Vault.open random).run (s.crashed op steps) = (m, some (.ok v)) ∧
    ∀ (puts : List Put) (name value : String), s.Stored name value → op.target ≠ some name →
      (∀ p ∈ puts, p.name ≠ name) → ((v.get name).run (puts.foldl (Put.run v) m)).2 = some (some value)

/-- The process dies right after a file was truncated: the second step of an operation that writes. -/
def Torn (s : Session c) (op : Op) (steps : Nat) : Prop :=
  match op with
  | .opened _ => s.machine.vaultKey = none ∧ steps = 2
  | .put nonce _ value _ => (∃ v ct, s.vault = some v ∧ c.encrypt v.key nonce (utf8 value) = .ok ct) ∧ steps = 2
  | .delete _ => s.vault.isSome ∧ steps = 2

/-- The crash does not tear `vault.key`, and tears `vault.json` only if it held nothing but the target. -/
def Spared (s : Session c) (op : Op) (steps : Nat) : Prop :=
  s.Torn op steps →
    match op with
    | .opened _ => False
    | _ => ∀ name value, s.Stored name value → op.target = some name

end Session

/-! ## What the operations do to the files -/

variable {m m' : Machine c} {v : Vault} {g : Vault.Grain} {nonce : Nonce} {name value kind n : String} {random k : Key}

namespace Vault

theorem firstKey_key (k : Key) : firstKey k.1 = some k := by
  rw [firstKey, dif_pos (by rw [k.2])]
  exact congrArg some (Subtype.ext (List.take_of_length_le (by rw [k.2])))

theorem unlock_key (random k : Key) : unlock random (some k.1) = (.done (.ok ⟨k⟩) : Task c (Except String Vault)) := by
  rw [unlock, firstKey_key]
  rfl

theorem run_open : (Vault.open random).run m = (unlock random m.vaultKey).run m := rfl

theorem run_open_old (h : m.vaultKey = some k.1) : (Vault.open random).run m = (m, some (.ok ⟨k⟩)) := by
  rw [run_open, h, unlock_key]
  rfl

theorem run_open_new (h : m.vaultKey = none) :
    (Vault.open random).run m = ({ m with vaultKey := some random.1 }, some (.ok ⟨random⟩)) := by
  rw [run_open, h]
  rfl

theorem run_open_torn (h : m.vaultKey = some []) : (Vault.open random).run m = (m, none) := by
  rw [run_open, h]
  rfl

/-- Opening leaves the secrets as they are. -/
theorem store_open : ((Vault.open random).run m).1.store = m.store := by
  rw [run_open]
  cases m.vaultKey with
  | none => rfl
  | some bytes =>
      rw [unlock]
      split <;> rfl

theorem run_put {ct : Bytes} (h : c.encrypt v.key nonce (utf8 value) = .ok ct) :
    (v.put .files nonce name value kind).run m =
      (m.setJson (c.toVecPretty
        (m.store.insert name ⟨Base64.encode nonce.1, Base64.encode ct, kind, fingerprint c value⟩)),
        some (.ok (fingerprint c value))) := by
  rw [put, h]
  rfl

theorem run_put_failed {e : String} (h : c.encrypt v.key nonce (utf8 value) = .error e) :
    (v.put .files nonce name value kind).run m = (m, some (.error e)) := by
  rw [put, h]
  rfl

theorem run_delete :
    (Vault.delete .files name).run m =
      (m.setJson (c.toVecPretty (m.store.remove name)), some (.ok (m.store.secrets.get? name).isSome)) := rfl

/-- What a lookup makes of the entry of its name. -/
def found (v : Vault) (o : Option Entry) : Task c (Option String) :=
  match o with
  | none => pure none
  | some e =>
      match reveal c v e with
      | some value => pure value
      | none => .crash

theorem run_lookup : (v.get n).run m = ((found v (m.store.secrets.get? n)).run m : Machine c × _) := rfl

/-- A lookup sees only the entry of its name. -/
theorem run_get (h : m.store.secrets.get? n = m'.store.secrets.get? n) :
    ((v.get n).run m).2 = ((v.get n).run m').2 := by
  rw [run_lookup, run_lookup, h]
  cases m'.store.secrets.get? n with
  | none => rfl
  | some e =>
      dsimp only [found]
      cases reveal c v e <;> rfl

theorem run_get_none (h : m.store.secrets.get? n = none) : ((v.get n).run m).2 = some none := by
  rw [run_lookup, h]
  rfl

end Vault

/-! ## A vault that stays whole -/

namespace Session

variable {s : Session c} {op : Op} {steps : Nat} {p : Put}

theorem put_other (hc : c.Lawful) (h : name ≠ n) :
    ((v.put .files nonce name value kind).run m).1.store.secrets.get? n = m.store.secrets.get? n := by
  cases he : c.encrypt v.key nonce (utf8 value) with
  | error e => rw [Vault.run_put_failed he]
  | ok ct =>
      rw [Vault.run_put he, Machine.store_setJson hc]
      exact (SortedMap.get?_insert ..).trans (if_neg h)

theorem puts_other (hc : c.Lawful) (puts : List Put) (h : ∀ p ∈ puts, p.name ≠ n) (m : Machine c) :
    (puts.foldl (Put.run v) m).store.secrets.get? n = m.store.secrets.get? n := by
  induction puts generalizing m with
  | nil => rfl
  | cons p puts ih =>
      rw [List.foldl_cons, ih fun q hq => h q (List.mem_cons_of_mem _ hq)]
      exact put_other hc (h p List.mem_cons_self)

/-- There is no key yet, or the open vault has the key that is on the disk. -/
def Sound (s : Session c) : Prop :=
  (s.machine.vaultKey = none ∧ s.vault = none) ∨
    ∃ k : Key, s.machine.vaultKey = some k.1 ∧ ∀ v, s.vault = some v → v = ⟨k⟩

theorem Sound.congr {m' : Machine c} (h : Sound s) (hk : m'.vaultKey = s.machine.vaultKey) : Sound ⟨m', s.vault⟩ := by
  unfold Sound
  rw [hk]
  exact h

theorem step_opened {r : Vault} (h : (Vault.open random).run s.machine = (m, some (.ok r))) :
    s.step (.opened random) = ⟨m, some r⟩ := by
  rw [step, Op.task, Prog.run_bind_of_eq h]
  rfl

theorem Sound.step (h : Sound s) (op : Op) : Sound (s.step op) := by
  cases op with
  | opened random =>
      rcases h with ⟨hk, -⟩ | ⟨k, hk, -⟩
      · rw [step_opened (Vault.run_open_new hk)]
        exact .inr ⟨random, rfl, fun v hv => (Option.some.inj hv).symm⟩
      · rw [step_opened (Vault.run_open_old hk)]
        exact .inr ⟨k, hk, fun v hv => (Option.some.inj hv).symm⟩
  | put nonce name value kind =>
      cases hv : s.vault with
      | none =>
          rw [Session.step, hv, Op.task]
          exact hv ▸ h
      | some v =>
          rw [Session.step, hv, Op.task]
          cases he : c.encrypt v.key nonce (utf8 value) with
          | error e =>
              rw [Prog.run_bind_of_eq (Vault.run_put_failed he)]
              exact hv ▸ h
          | ok ct =>
              rw [Prog.run_bind_of_eq (Vault.run_put he)]
              exact hv ▸ h.congr rfl
  | delete name =>
      cases hv : s.vault with
      | none =>
          rw [Session.step, hv, Op.task]
          exact hv ▸ h
      | some v =>
          rw [Session.step, hv, Op.task, Prog.run_bind_of_eq Vault.run_delete]
          exact hv ▸ h.congr rfl

theorem sound_after (ops : List Op) : Sound (after c ops) := by
  unfold after
  generalize hs : fresh c = s
  have h : Sound s := hs ▸ .inl ⟨rfl, rfl⟩
  clear hs
  induction ops generalizing s with
  | nil => exact h
  | cons op ops ih => exact ih _ (h.step op)

/-! ## What a crash leaves -/

/-- The file of secrets before the truncation, between it and the write, and after the write. -/
def edited (m : Machine c) (s : Store) : Nat → Machine c
  | 0 | 1 => m
  | 2 => m.setJson c.emptyFile
  | _ + 3 => m.setJson (c.toVecPretty s)

theorem crashed_put {ct : Bytes} (hv : s.vault = some v) (he : c.encrypt v.key nonce (utf8 value) = .ok ct) :
    s.crashed (.put nonce name value kind) steps = edited s.machine
      (s.machine.store.insert name ⟨Base64.encode nonce.1, Base64.encode ct, kind, fingerprint c value⟩) steps := by
  rw [crashed, hv, Op.task, Vault.put, he]
  match steps with
  | 0 | 1 | 2 => rfl
  | k + 3 => exact congrArg Prod.fst (Prog.ticks_done k (some v) _)

theorem crashed_put_failed {e : String} (hv : s.vault = some v) (he : c.encrypt v.key nonce (utf8 value) = .error e) :
    s.crashed (.put nonce name value kind) steps = s.machine := by
  rw [crashed, hv, Op.task, Vault.put, he]
  exact congrArg Prod.fst (Prog.ticks_done steps (some v) _)

theorem crashed_delete (hv : s.vault = some v) :
    s.crashed (.delete name) steps = edited s.machine (s.machine.store.remove name) steps := by
  rw [crashed, hv, Op.task]
  match steps with
  | 0 | 1 | 2 => rfl
  | k + 3 => exact congrArg Prod.fst (Prog.ticks_done k (some v) _)

theorem crashed_unopened (hv : s.vault = none) (hop : ∀ r, op ≠ .opened r) : s.crashed op steps = s.machine := by
  rw [crashed, hv]
  cases op with
  | opened r => exact absurd rfl (hop r)
  | put _ _ _ _ => exact congrArg Prod.fst (Prog.ticks_done steps none _)
  | delete _ => exact congrArg Prod.fst (Prog.ticks_done steps none _)

theorem crashed_opened (steps : Nat) :
    s.crashed (.opened random) (steps + 1) =
      (((Vault.unlock random s.machine.vaultKey).bind fun r => Prog.done r.toOption).ticks steps s.machine).1 := rfl

theorem crashed_reopen (hk : s.machine.vaultKey = some k.1) : s.crashed (.opened random) steps = s.machine := by
  match steps with
  | 0 => rfl
  | j + 1 =>
      rw [crashed_opened, hk, Vault.unlock_key]
      exact congrArg Prod.fst (Prog.ticks_done j _ _)

theorem crashed_open (random : Key) (steps : Nat) (hk : s.machine.vaultKey = none) :
    s.crashed (.opened random) steps =
      match steps with
      | 0 | 1 => s.machine
      | 2 => { s.machine with vaultKey := some [] }
      | _ + 3 => { s.machine with vaultKey := some random.1 } := by
  match steps with
  | 0 => rfl
  | j + 1 =>
      rw [crashed_opened, hk]
      match j with
      | 0 | 1 => rfl
      | k + 2 => exact congrArg Prod.fst (Prog.ticks_done k _ _)

theorem edited_get {t : Store} (hc : c.Lawful) (h2 : steps ≠ 2) (h : t.secrets.get? n = m.store.secrets.get? n) :
    (edited m t steps).store.secrets.get? n = m.store.secrets.get? n := by
  match steps with
  | 0 | 1 => rfl
  | 2 => exact absurd rfl h2
  | k + 3 => rwa [edited, Machine.store_setJson hc]

theorem edited_key (t : Store) : (edited m t steps).vaultKey = m.vaultKey := by
  match steps with
  | 0 | 1 | 2 => rfl
  | k + 3 => rfl

/-- Unless the file was torn, only the entry of the target may have changed. -/
theorem crashed_get (hc : c.Lawful) (hs : Sound s) (h : ¬ Torn s op steps) (hn : op.target ≠ some n) :
    (s.crashed op steps).store.secrets.get? n = s.machine.store.secrets.get? n := by
  cases op with
  | opened random =>
      rcases hs with ⟨hk, -⟩ | ⟨k, hk, -⟩
      · rw [crashed_open _ _ hk]
        match steps with
        | 0 | 1 | 2 => rfl
        | j + 3 => rfl
      · rw [crashed_reopen hk]
  | put nonce name value kind =>
      cases hv : s.vault with
      | none => rw [crashed_unopened hv (fun _ h => by cases h)]
      | some v =>
          cases he : c.encrypt v.key nonce (utf8 value) with
          | error e => rw [crashed_put_failed hv he]
          | ok ct =>
              rw [crashed_put hv he]
              refine edited_get hc (fun h2 => h ⟨⟨v, ct, hv, he⟩, h2⟩) ?_
              exact (SortedMap.get?_insert ..).trans (if_neg fun hname => hn (congrArg some hname))
  | delete name =>
      cases hv : s.vault with
      | none => rw [crashed_unopened hv (fun _ h => by cases h)]
      | some v =>
          rw [crashed_delete hv]
          refine edited_get hc (fun h2 => h ⟨by rw [hv]; rfl, h2⟩) ?_
          exact (SortedMap.get?_erase ..).trans (if_neg fun hname => hn (congrArg some hname))

theorem crashed_key (hk : s.machine.vaultKey = some k.1) : (s.crashed op steps).vaultKey = some k.1 := by
  cases op with
  | opened random => rwa [crashed_reopen hk]
  | put nonce name value kind =>
      cases hv : s.vault with
      | none => rwa [crashed_unopened hv (fun _ h => by cases h)]
      | some v =>
          cases he : c.encrypt v.key nonce (utf8 value) with
          | error e => rwa [crashed_put_failed hv he]
          | ok ct => rwa [crashed_put hv he, edited_key]
  | delete name =>
      cases hv : s.vault with
      | none => rwa [crashed_unopened hv (fun _ h => by cases h)]
      | some v => rwa [crashed_delete hv, edited_key]

/-- Unless the key was torn, the vault opens again, with the key that it had. -/
theorem reopens (h : Sound s) (hkey : ∀ r, op = .opened r → ¬ Torn s op steps) (random : Key) :
    ∃ m v, (Vault.open random).run (s.crashed op steps) = (m, some (.ok v)) ∧
      m.store = (s.crashed op steps).store ∧ ∀ w, s.vault = some w → v = w := by
  rcases h with ⟨hk, hv⟩ | ⟨k, hk, hv⟩
  · have hnew : (s.crashed op steps).vaultKey = none → ∃ m v, (Vault.open random).run (s.crashed op steps) =
        (m, some (.ok v)) ∧ m.store = (s.crashed op steps).store ∧ ∀ w, s.vault = some w → v = w := fun hnone =>
      ⟨_, _, Vault.run_open_new hnone, rfl, fun w hw => by rw [hv] at hw; cases hw⟩
    cases op with
    | opened r =>
        have hdisk := crashed_open r steps hk
        match steps with
        | 0 | 1 => exact hnew (by rw [hdisk]; exact hk)
        | 2 => exact absurd ⟨hk, rfl⟩ (hkey r rfl)
        | j + 3 =>
            exact ⟨_, _, Vault.run_open_old (by rw [hdisk]), rfl, fun w hw => by rw [hv] at hw; cases hw⟩
    | put _ _ _ _ => exact hnew (by rwa [crashed_unopened hv (fun _ h => by cases h)])
    | delete _ => exact hnew (by rwa [crashed_unopened hv (fun _ h => by cases h)])
  · exact ⟨_, _, Vault.run_open_old (crashed_key hk), rfl, fun w hw => (hv w hw).symm⟩

/-! ## Crashes and restarts -/

theorem torn_empty (hc : c.Lawful) (h : Torn s op steps) (hop : ∀ r, op ≠ .opened r) :
    (s.crashed op steps).store = .blank := by
  cases op with
  | opened r => exact absurd rfl (hop r)
  | put nonce name value kind =>
      obtain ⟨⟨v, ct, hv, he⟩, rfl⟩ := h
      rw [crashed_put hv he]
      exact Machine.store_emptied hc _
  | delete name =>
      obtain ⟨hv, rfl⟩ := h
      obtain ⟨v, hv⟩ := Option.isSome_iff_exists.1 hv
      rw [crashed_delete hv]
      exact Machine.store_emptied hc _

theorem Stored.retrieved {puts : List Put} (hc : c.Lawful) (h : s.Stored n value) (hv : ∀ w, s.vault = some w → v = w)
    (hm : m.store.secrets.get? n = s.machine.store.secrets.get? n) (hp : ∀ p ∈ puts, p.name ≠ n) :
    ((v.get n).run (puts.foldl (Put.run v) m)).2 = some (some value) := by
  obtain ⟨w, hw, hget⟩ := h
  rw [hv w hw, ← hget]
  exact Vault.run_get ((puts_other hc puts hp m).trans hm)

theorem Survives.of_spared (hc : c.Lawful) (hs : Sound s) (h : Spared s op steps) : Survives s op steps := by
  intro random
  have hkey : ∀ r, op = .opened r → ¬ Torn s op steps := by
    rintro r rfl ht
    exact h ht
  obtain ⟨m, v, hopen, hstore, hv⟩ := reopens hs hkey random
  refine ⟨m, v, hopen, fun puts name value hstored hn hp => hstored.retrieved hc hv ?_ hp⟩
  rw [hstore]
  by_cases ht : Torn s op steps
  · have hspared := h ht
    cases op with
    | opened r => exact hspared.elim
    | put _ _ _ _ => exact absurd (hspared name value hstored) hn
    | delete _ => exact absurd (hspared name value hstored) hn
  · exact crashed_get hc hs ht hn

theorem Survives.spared (hc : c.Lawful) (h : Survives s op steps) : Spared s op steps := by
  intro ht
  obtain ⟨m, v, hopen, hkept⟩ := h zeroKey
  have hlost : (∀ r, op ≠ .opened r) → ∀ name value, s.Stored name value → op.target = some name := by
    intro hop name value hstored
    by_contra hn
    have hblank : m.store = .blank := by
      have hm : ((Vault.open zeroKey).run (s.crashed op steps)).1.store = m.store := by rw [hopen]
      rw [← hm, Vault.store_open, torn_empty hc ht hop]
    have hget := hkept [] name value hstored hn (by simp)
    have hnone : ((v.get name).run m).2 = some none := Vault.run_get_none (by rw [hblank]; rfl)
    rw [List.foldl_nil, hnone] at hget
    cases hget
  cases op with
  | opened r =>
      obtain ⟨hk, rfl⟩ := ht
      rw [crashed_open _ _ hk, Vault.run_open_torn rfl] at hopen
      cases hopen
  | put _ _ _ _ => exact hlost (fun _ h => by cases h)
  | delete _ => exact hlost (fun _ h => by cases h)

/-- After any operations, a vault survives the crash of the next one exactly when the crash does not
tear the key, and does not tear a file with secrets other than the target. -/
theorem survives_iff (hc : c.Lawful) (ops : List Op) (op : Op) (steps : Nat) :
    Survives (after c ops) op steps ↔ Spared (after c ops) op steps :=
  ⟨Survives.spared hc, Survives.of_spared hc (sound_after ops)⟩

/-- A second secret is put, and the process dies between the truncation and the write. -/
def tornPut : Op := .put zeroNonce "anthropic" "w" "api_key"

theorem survives_iff_sample :
    Survives (after sample [.opened zeroKey, .put zeroNonce "github" "v" "api_key"]) tornPut 3 ↔
      Spared (after sample [.opened zeroKey, .put zeroNonce "github" "v" "api_key"]) tornPut 3 :=
  survives_iff sample_lawful [.opened zeroKey, .put zeroNonce "github" "v" "api_key"] tornPut 3

theorem survives_torn :
    ¬ ∀ (c : Crates) (ops : List Op) (op : Op) (steps : Nat), c.Lawful → Survives (after c ops) op steps := by
  intro h
  obtain ⟨m, v, hopen, hkept⟩ := h sample [.opened zeroKey, .put zeroNonce "github" "v" "api_key"] tornPut 2 sample_lawful
    zeroKey
  have hstored : Stored (after sample [.opened zeroKey, .put zeroNonce "github" "v" "api_key"]) "github" "v" :=
    ⟨⟨zeroKey⟩, by rfl, by decide⟩
  have hget := hkept [] "github" "v" hstored (by decide) (by simp)
  cases hopen
  have hlost : False := by revert hget; decide
  exact hlost

end Session

end Executor
