import Apifor.Executor.Ipc
import Apifor.Lib.Runs

/-!
# Concurrent changes of the vault

Every change of the vault loads the whole file and saves it back, from a task of its own and without
a lock. What the connections leave in the file is what one connection with the same requests would
leave, provided that no request saves while another one is between its load and its save.
-/

namespace Executor

variable {c : Crates} {v : Vault} {token : String} {g : Vault.Grain}

/-! ## What a request does to the store -/

/-- A change of the map of secrets. -/
inductive Edit
  | put (name : String) (e : Entry)
  | delete (name : String)
deriving DecidableEq

namespace Edit

def name : Edit → String
  | put n _ => n
  | delete n => n

def apply : Edit → Store → Store
  | put n e, s => s.insert n e
  | delete n, s => s.remove n

theorem get?_apply {n : String} {e : Edit} (h : e.name ≠ n) (s : Store) :
    (e.apply s).secrets.get? n = s.secrets.get? n := by
  cases e with
  | put k _ => exact (SortedMap.get?_insert ..).trans (if_neg h)
  | delete k => exact (SortedMap.get?_erase ..).trans (if_neg h)

end Edit

namespace Ipc

/-- The change that a request asks of the vault, if it is one. -/
def edit (c : Crates) (v : Vault) (token : String) (call : Call) : Option Edit :=
  if blankLine call then none
  else
    match c.fromStr call.line with
    | .error _ => none
    | .ok req =>
        if !authorized req token then none
        else
          match Value.strOr req "cmd" "" with
          | "secret.put" =>
              let name := Value.strOr req "name" ""
              let value := Value.strOr req "value" ""
              if name = "" ∨ value = "" then none
              else
                match c.encrypt v.key call.nonce (utf8 value) with
                | .error _ => none
                | .ok ct =>
                    some (.put name ⟨Base64.encode call.nonce.1, Base64.encode ct, Value.strOr req "kind" "api_key",
                      fingerprint c value⟩)
          | "secret.delete" => some (.delete (Value.strOr req "name" ""))
          | _ => none

def applyEdit (e : Option Edit) (s : Store) : Store :=
  match e with
  | none => s
  | some e => e.apply s

/-- The vault after requests that are served one after another. -/
def inOrder (c : Crates) (v : Vault) (token : String) (calls : List Call) (s : Store) : Store :=
  calls.foldl (fun s call => applyEdit (edit c v token call) s) s

/-! ## The steps of a request -/

/-- The step that writes an edited store back. -/
def saveOf (e : Edit) (s : Store) (m : Machine c) : Except String (Machine c × Unit) :=
  .ok (m.setJson (c.toVecPretty (e.apply s)), ())

theorem settle_store {β : Type} {f : Machine c → Except String (Machine c × β)}
    (hf : ∀ m m' b, f m = .ok (m', b) → m'.store = m.store) (m : Machine c) : (Prog.settle f m).1.store = m.store := by
  unfold Prog.settle
  split
  · next m' b h => exact hf m m' b h
  · rfl

/-- A request is answered without the vault, after a step that leaves the vault alone, or by a load
and a save. -/
inductive Served : Option Edit → Task c Json → Prop
  | answered (r : Json) : Served none (.done r)
  | aside {β : Type} {f : Machine c → Except String (Machine c × β)} {k : Except String β → Task c Json} {n : String}
      (hn : n ≠ "save") (hf : ∀ m m' b, f m = .ok (m', b) → m'.store = m.store) (hk : ∀ b, ∃ r, k b = .done r) :
      Served none (.stmt n f k)
  | read {k : Store → Task c Json} (hk : ∀ s, ∃ r, k s = .done r) : Served none (.act (fun m => (m, m.store)) k)
  | edits {e : Edit} {k : Store → Except String Unit → Task c Json} (hk : ∀ s b, ∃ r, k s b = .done r) :
      Served (some e) (.act (fun m => (m, m.store)) fun s => .stmt "save" (saveOf e s) (k s))

theorem dispatch_served {call : Call} (hb : blankLine call = false) :
    Served (c := c) (edit c v token call) (dispatch .whole v token call) := by
  unfold edit dispatch
  rw [if_neg (by simp [hb])]
  cases c.fromStr call.line with
  | error e => exact .answered _
  | ok req =>
      dsimp only
      split
      · exact .answered _
      · generalize Value.strOr req "cmd" "" = cmd
        by_cases hput : cmd = "secret.put"
        · subst hput
          by_cases hempty : Value.strOr req "name" "" = "" ∨ Value.strOr req "value" "" = ""
          · simp only [if_pos hempty]
            exact .answered _
          · simp only [if_neg hempty]
            unfold Vault.put
            cases c.encrypt v.key call.nonce (utf8 (Value.strOr req "value" "")) with
            | error e => exact .answered _
            | ok ct => exact .edits fun s b => by cases b <;> exact ⟨_, rfl⟩
        · by_cases hdel : cmd = "secret.delete"
          · subst hdel
            exact .edits fun s b => by cases b <;> exact ⟨_, rfl⟩
          · split
            · exact absurd rfl hput
            · exact absurd rfl hdel
            · split
              · exact absurd rfl hput
              · exact absurd rfl hdel
              · split
                · exact .answered _
                · refine .aside (by decide) (fun m m' b hw => ?_) fun b => by cases b <;> exact ⟨_, rfl⟩
                  split at hw
                  · cases hw
                    rfl
                  · cases hw
              · exact .read fun s => ⟨_, rfl⟩
              · exact .read fun s => ⟨_, rfl⟩
              · exact .answered _

/-! ## The steps of a connection -/

/-- What is left of a connection, and the requests on it that have not reached the vault: it waits for
a line, it sends an answer, or it holds the store that it has loaded. -/
inductive Waiting (v : Vault) (token : String) (conn : Nat) (s : Store) : Task c Unit → List Call → Prop
  | idle (calls : List Call) : Waiting v token conn s (handle .whole v token conn calls) calls
  | sends (r : Json) (calls : List Call) :
      Waiting v token conn s ((reply conn r).bind fun _ => handle .whole v token conn calls) calls
  | holds {e : Edit} {call : Call} {k : Except String Unit → Task c Json} (calls : List Call)
      (he : edit c v token call = some e) (hk : ∀ b, ∃ r, k b = .done r) :
      Waiting v token conn s
        (.stmt "save" (saveOf e s) fun b => (k b).bind fun r => (reply conn r).bind fun _ => handle .whole v token conn calls)
        (call :: calls)

variable {conn : Nat} {s s' : Store} {p : Task c Unit} {calls : List Call} {m : Machine c}

/-- A connection that is not about to save does not mind what is in the vault. -/
theorem Waiting.unheld (hp : p.upcoming ≠ some "save") (h : Waiting v token conn s p calls) :
    Waiting v token conn s' p calls := by
  cases h with
  | idle => exact .idle _
  | sends r => exact .sends _ _
  | holds _ _ _ => exact absurd rfl hp

theorem inOrder_cons (call : Call) (calls : List Call) (s : Store) :
    inOrder c v token (call :: calls) s = inOrder c v token calls (applyEdit (edit c v token call) s) := rfl

theorem handle_cons {call : Call} (hb : blankLine call = false) :
    handle g v token conn (call :: calls) =
      (dispatch g v token call).bind fun r => (reply conn r).bind fun _ => handle (c := c) g v token conn calls := by
  rw [handle, if_neg (by simp [hb])]
  rfl

/-- A step of a connection takes up to the save of the request that it serves; the requests it has
left behind have changed the vault in their order. -/
theorem Waiting.tick (hc : c.Lawful) (h : Waiting v token conn m.store p calls) :
    ∃ gone left, calls = gone ++ left ∧ (p.tick m).1.store = inOrder c v token gone m.store ∧
      Waiting v token conn (p.tick m).1.store (p.tick m).2 left ∧
      (p.upcoming ≠ some "save" → (p.tick m).1.store = m.store) := by
  cases h with
  | sends r => exact ⟨[], calls, rfl, rfl, .idle _, fun _ => rfl⟩
  | @holds e call k rest he hk =>
      obtain ⟨r, hr⟩ := hk (.ok ())
      have hs : (m.setJson (c.toVecPretty (e.apply m.store))).store = e.apply m.store := Machine.store_setJson hc _ _
      refine ⟨[call], rest, rfl, ?_, ?_, fun hp => absurd rfl hp⟩
      · rw [inOrder_cons, he]
        exact hs
      · change Waiting v token conn _ ((k (.ok ())).bind _) rest
        rw [hr]
        exact .sends r rest
  | idle =>
      induction calls with
      | nil => exact ⟨[], [], rfl, rfl, .idle [], fun _ => rfl⟩
      | cons call rest ih =>
          cases hb : blankLine call with
          | true =>
              obtain ⟨gone, left, rfl, hs, hw, hp⟩ := ih
              have hnone : edit c v token call = none := by rw [edit, if_pos hb]
              have hskip : handle (c := c) .whole v token conn (call :: (gone ++ left)) =
                  handle .whole v token conn (gone ++ left) := by rw [handle, if_pos hb]
              rw [hskip]
              exact ⟨call :: gone, left, rfl, by rw [inOrder_cons, hnone]; exact hs, hw, hp⟩
          | false =>
              rw [handle_cons hb]
              have hserved : Served (edit c v token call) (dispatch (c := c) .whole v token call) := dispatch_served hb
              generalize dispatch (c := c) .whole v token call = q at hserved
              generalize he : edit c v token call = e at hserved
              cases hserved with
              | answered r => exact ⟨[call], rest, rfl, by rw [inOrder_cons, he]; rfl, .idle _, fun _ => rfl⟩
              | @aside β f k n hn hf hk =>
                  obtain ⟨r, hr⟩ := hk (Prog.settle f m).2
                  have hs := settle_store hf m
                  refine ⟨[call], rest, rfl, by rw [inOrder_cons, he]; exact hs, ?_, fun _ => hs⟩
                  change Waiting v token conn _ ((k (Prog.settle f m).2).bind _) rest
                  rw [hr]
                  exact .sends r rest
              | @read k hk =>
                  obtain ⟨r, hr⟩ := hk m.store
                  refine ⟨[call], rest, rfl, by rw [inOrder_cons, he]; rfl, ?_, fun _ => rfl⟩
                  change Waiting v token conn m.store ((k m.store).bind _) rest
                  rw [hr]
                  exact .sends r rest
              | @edits e k hk => exact ⟨[], call :: rest, rfl, rfl, .holds rest he (hk m.store), fun _ => rfl⟩

/-! ## Runs of the daemon -/

/-- A connection has loaded the vault and is about to save it. -/
def holding (pool : Pool (Machine c) String) (i : Nat) : Bool :=
  decide (pool.threads[i]?.bind Prog.upcoming = some "save")

/-- No other request is between its load and its save while connection `i` saves. -/
def SavesAlone (pool : Pool (Machine c) String) (i : Nat) : Prop :=
  holding pool i = true → ∀ j < pool.threads.length, j ≠ i → holding pool j = false

instance (pool : Pool (Machine c) String) (i : Nat) : Decidable (SavesAlone pool i) :=
  inferInstanceAs (Decidable (_ → _))

/-- Every connection has been served to its end. -/
def AllServed (pool : Pool (Machine c) String) : Prop := ∀ p ∈ pool.threads, p.ended = true

instance (pool : Pool (Machine c) String) : Decidable (AllServed pool) :=
  inferInstanceAs (Decidable (∀ p ∈ pool.threads, p.ended = true))

/-- The secrets are those that one connection with the same requests, in some order, would leave; and
an entry that a request has put is there unless another request names it. -/
def Linear (v : Vault) (token : String) (conns : List (List Call)) (m m' : Machine c) : Prop :=
  (∃ order : List Call, order.Perm conns.flatten ∧ m'.store = ((handle .whole v token 0 order).run m).1.store) ∧
    ∀ before call after n e, conns.flatten = before ++ call :: after → edit c v token call = some (.put n e) →
      (∀ x ∈ before ++ after, (edit c v token x).map Edit.name ≠ some n) → m'.store.secrets.get? n = some e

/-- What is left of the connections: each of them waits, and the requests that are gone and those
still to come are the requests that came in. -/
structure Progress (v : Vault) (token : String) (conns : List (List Call)) (s : Store)
    (pool : Pool (Machine c) String) (gone : List Call) (left : List (List Call)) : Prop where
  store : pool.shared.store = inOrder c v token gone s
  length : left.length = pool.threads.length
  waits : ∀ i p, pool.threads[i]? = some p → ∃ calls, left[i]? = some calls ∧ Waiting v token i pool.shared.store p calls
  perm : (gone ++ left.flatten).Perm conns.flatten

variable {conns : List (List Call)} {pool : Pool (Machine c) String} {gone : List Call} {left : List (List Call)}

theorem inOrder_append (xs ys : List Call) (s : Store) :
    inOrder c v token (xs ++ ys) s = inOrder c v token ys (inOrder c v token xs s) := List.foldl_append

theorem flatten_set_perm {α : Type} {ls : List (List α)} {i : Nat} {xs ys : List α} (h : ls[i]? = some (xs ++ ys)) :
    ls.flatten.Perm (xs ++ (ls.set i ys).flatten) := by
  induction ls generalizing i with
  | nil => simp at h
  | cons l ls ih =>
      cases i with
      | zero =>
          obtain rfl : l = xs ++ ys := by simpa using h
          simp
      | succ i =>
          rw [List.set_cons_succ, List.flatten_cons, List.flatten_cons]
          refine ((ih (by simpa using h)).append_left l).trans ?_
          rw [← List.append_assoc, ← List.append_assoc]
          exact List.perm_append_comm.append_right _

theorem Progress.turn (hc : c.Lawful) {i : Nat} (h : Progress v token conns s pool gone left) (ha : SavesAlone pool i) :
    ∃ gone' left', Progress v token conns s (pool.turn i) gone' left' := by
  unfold Pool.turn
  cases hp : pool.threads[i]? with
  | none => exact ⟨gone, left, h⟩
  | some p =>
      obtain ⟨calls, hcalls, hw⟩ := h.waits i p hp
      obtain ⟨taken, rest, rfl, hstore, hw', hidle⟩ := hw.tick hc
      refine ⟨gone ++ taken, left.set i rest, ?_, ?_, fun j q hq => ?_, ?_⟩
      · rw [inOrder_append, ← h.store]
        exact hstore
      · simpa using h.length
      · dsimp only at hq ⊢
        by_cases hji : i = j
        · subst hji
          obtain ⟨hlt, -⟩ := List.getElem?_eq_some_iff.1 hp
          rw [List.getElem?_set_self hlt] at hq
          cases hq
          exact ⟨rest, List.getElem?_set_self (h.length ▸ hlt), hw'⟩
        · rw [List.getElem?_set_ne hji] at hq
          obtain ⟨others, hothers, hwait⟩ := h.waits j q hq
          refine ⟨others, (List.getElem?_set_ne hji).trans hothers, ?_⟩
          by_cases hsave : p.upcoming = some "save"
          · obtain ⟨hlt, -⟩ := List.getElem?_eq_some_iff.1 hq
            have hnot := ha (by simp [holding, hp, hsave]) j hlt (Ne.symm hji)
            exact hwait.unheld (by simpa [holding, hq] using hnot)
          · rwa [hidle hsave]
      · rw [List.append_assoc]
        exact ((flatten_set_perm hcalls).symm.append_left gone).trans h.perm

/-! ## A connection alone -/

theorem Served.run (hc : c.Lawful) {e : Option Edit} {q : Task c Json} (h : Served e q) (m : Machine c) :
    ∃ m' r, q.run m = (m', some r) ∧ m'.store = applyEdit e m.store := by
  cases h with
  | answered r => exact ⟨m, r, rfl, rfl⟩
  | @aside β f k n hn hf hk =>
      obtain ⟨r, hr⟩ := hk (Prog.settle f m).2
      refine ⟨(Prog.settle f m).1, r, by rw [Prog.run_stmt, hr]; rfl, settle_store hf m⟩
  | read hk =>
      obtain ⟨r, hr⟩ := hk m.store
      exact ⟨m, r, by rw [Prog.run_act, hr]; rfl, rfl⟩
  | @edits e k hk =>
      obtain ⟨r, hr⟩ := hk m.store (.ok ())
      refine ⟨m.setJson (c.toVecPretty (e.apply m.store)), r, ?_, Machine.store_setJson hc _ _⟩
      change (k m.store (.ok ())).run _ = _
      rw [hr]
      rfl

theorem run_handle (hc : c.Lawful) (calls : List Call) (m : Machine c) :
    ((handle .whole v token conn calls).run m).1.store = inOrder c v token calls m.store := by
  induction calls generalizing m with
  | nil => rfl
  | cons call rest ih =>
      cases hb : blankLine call with
      | true =>
          have hnone : edit c v token call = none := by rw [edit, if_pos hb]
          rw [handle, if_pos hb, ih, inOrder_cons, hnone]
          rfl
      | false =>
          have hserved : Served (edit c v token call) (dispatch (c := c) .whole v token call) := dispatch_served hb
          obtain ⟨m', r, hrun, hs⟩ := hserved.run hc m
          rw [handle_cons hb, Prog.run_bind_of_eq hrun, inOrder_cons, ← hs]
          exact ih { m' with answers := m'.answers ++ [(conn, r)] }

/-! ## What is left in the vault -/

/-- What no other request names stays as the request that put it has left it. -/
theorem inOrder_kept {n : String} {calls : List Call} (h : ∀ x ∈ calls, (edit c v token x).map Edit.name ≠ some n)
    (s : Store) : (inOrder c v token calls s).secrets.get? n = s.secrets.get? n := by
  induction calls generalizing s with
  | nil => rfl
  | cons x calls ih =>
      rw [inOrder_cons, ih fun y hy => h y (List.mem_cons_of_mem _ hy)]
      have hx := h x List.mem_cons_self
      cases hedit : edit c v token x with
      | none => rfl
      | some e => exact Edit.get?_apply (fun hn => hx (by rw [hedit, ← hn]; rfl)) s

theorem inOrder_put {n : String} {e : Entry} {calls before after : List Call} {call : Call}
    (hperm : calls.Perm (before ++ call :: after)) (he : edit c v token call = some (.put n e))
    (h : ∀ x ∈ before ++ after, (edit c v token x).map Edit.name ≠ some n) (s : Store) :
    (inOrder c v token calls s).secrets.get? n = some e := by
  obtain ⟨xs, ys, rfl⟩ := List.append_of_mem (hperm.mem_iff.2 (List.mem_append_right _ List.mem_cons_self))
  have hrest : (xs ++ ys).Perm (before ++ after) := by
    have hmid := List.perm_middle.symm.trans (hperm.trans List.perm_middle)
    exact (List.perm_cons call).1 hmid
  have hys : ∀ x ∈ ys, (edit c v token x).map Edit.name ≠ some n := fun x hx =>
    h x (hrest.mem_iff.1 (List.mem_append_right _ hx))
  rw [inOrder_append, inOrder_cons, inOrder_kept hys, he]
  exact (SortedMap.get?_insert ..).trans (if_pos rfl)

theorem progress_serve (v : Vault) (token : String) (conns : List (List Call)) (m : Machine c) :
    Progress v token conns m.store (serve v token conns m) [] conns := by
  refine ⟨rfl, by simp [serve], fun i p hp => ?_, .refl _⟩
  obtain ⟨⟨calls, j⟩, hcalls, rfl⟩ : ∃ q, conns.zipIdx[i]? = some q ∧ handle .whole v token q.2 q.1 = p := by
    simpa [serve] using hp
  have hget : conns[i]? = some calls ∧ i = j := by simpa [List.getElem?_zipIdx] using hcalls
  obtain ⟨hget, rfl⟩ := hget
  exact ⟨calls, hget, .idle calls⟩

theorem Waiting.quiet (h : Waiting v token conn s p calls) (hend : p.ended = true) :
    ∀ x ∈ calls, edit c v token x = none := by
  cases h with
  | sends r => cases hend
  | holds _ _ _ => cases hend
  | idle =>
      induction calls with
      | nil => simp
      | cons call rest ih =>
          cases hb : blankLine call with
          | true =>
              rw [handle, if_pos hb] at hend
              intro x hx
              rcases List.mem_cons.1 hx with rfl | hx
              · rw [edit, if_pos hb]
              · exact ih hend x hx
          | false =>
              rw [handle_cons hb] at hend
              have hserved : Served (edit c v token call) (dispatch (c := c) .whole v token call) := dispatch_served hb
              generalize dispatch (c := c) .whole v token call = q at hserved hend
              generalize edit c v token call = e at hserved
              cases hserved <;> cases hend

theorem inOrder_quiet {calls : List Call} (h : ∀ x ∈ calls, edit c v token x = none) (s : Store) :
    inOrder c v token calls s = s := by
  induction calls with
  | nil => rfl
  | cons x calls ih =>
      rw [inOrder_cons, h x List.mem_cons_self]
      exact ih fun y hy => h y (List.mem_cons_of_mem _ hy)

theorem Progress.linear (hc : c.Lawful) (h : Progress v token conns m.store pool gone left) (hend : AllServed pool) :
    Linear v token conns m pool.shared := by
  have hquiet : ∀ x ∈ left.flatten, edit c v token x = none := fun x hx => by
    obtain ⟨calls, hcalls, hx⟩ := List.mem_flatten.1 hx
    obtain ⟨i, hi, rfl⟩ := List.getElem_of_mem hcalls
    have hlt : i < pool.threads.length := h.length ▸ hi
    obtain ⟨calls, hget, hw⟩ := h.waits i pool.threads[i] (List.getElem?_eq_getElem hlt)
    rw [List.getElem?_eq_getElem hi] at hget
    cases hget
    exact hw.quiet (hend _ (List.getElem_mem hlt)) x hx
  have hstore : pool.shared.store = inOrder c v token (gone ++ left.flatten) m.store := by
    rw [inOrder_append, inOrder_quiet hquiet, h.store]
  refine ⟨⟨gone ++ left.flatten, h.perm, by rw [run_handle hc, hstore]⟩, ?_⟩
  intro before call after n e hsplit hput hother
  rw [hstore]
  exact inOrder_put (hsplit ▸ h.perm) hput hother m.store

/-- Requests that never save while another one is between its load and its save leave what some
sequence of them leaves, however their steps interleave. -/
theorem linearizable (hc : c.Lawful) (v : Vault) (token : String) (conns : List (List Call)) (m : Machine c)
    (schedule : List Nat) (hs : Runs.Meets Pool.turn SavesAlone (serve v token conns m) schedule)
    (hend : AllServed (Runs.exec Pool.turn (serve v token conns m) schedule)) :
    Linear v token conns m (Runs.exec Pool.turn (serve v token conns m) schedule).shared := by
  have hrun := Runs.always_of_meets (P := fun pool => ∃ gone left, Progress v token conns m.store pool gone left)
    (fun pool i h ha => by
      obtain ⟨gone, left, h⟩ := h
      exact h.turn hc ha)
    ⟨[], conns, progress_serve v token conns m⟩ hs
  obtain ⟨gone, left, h⟩ := hrun.last
  exact h.linear hc hend

/-! ## Two connections at once -/

section Sample

def putting (name : String) : Call :=
  ⟨"\x7b\"token\":\"t\",\"cmd\":\"secret.put\",\"name\":\"" ++ name ++ "\",\"value\":\"v\"\x7d", zeroNonce, true⟩

def valueEntry : Entry :=
  ⟨Base64.encode zeroNonce.1, Base64.encode (utf8 "v" ++ List.replicate 16 0), "api_key", fingerprint sample "v"⟩

def bothAtOnce : List (List Call) := [[putting "github"], [putting "anthropic"]]

theorem linearizable_sample :
    Runs.Meets Pool.turn SavesAlone (serve ⟨zeroKey⟩ "t" bothAtOnce noFiles) [0, 0, 1, 0, 1, 1, 1] ∧
      Linear ⟨zeroKey⟩ "t" bothAtOnce noFiles
        (Runs.exec Pool.turn (serve ⟨zeroKey⟩ "t" bothAtOnce noFiles) [0, 0, 1, 0, 1, 1, 1]).shared :=
  have hs : Runs.Meets Pool.turn SavesAlone (serve ⟨zeroKey⟩ "t" bothAtOnce noFiles) [0, 0, 1, 0, 1, 1, 1] := by
    decide
  ⟨hs, linearizable sample_lawful ⟨zeroKey⟩ "t" bothAtOnce noFiles [0, 0, 1, 0, 1, 1, 1] hs (by decide)⟩

/-- Both connections load the empty vault, and then both save. -/
theorem linearizable_overlap :
    ¬ ∀ (c : Crates) (v : Vault) (token : String) (conns : List (List Call)) (m : Machine c) (schedule : List Nat),
      c.Lawful → AllServed (Runs.exec Pool.turn (serve v token conns m) schedule) →
        Linear v token conns m (Runs.exec Pool.turn (serve v token conns m) schedule).shared := by
  intro h
  have hput : edit sample ⟨zeroKey⟩ "t" (putting "github") = some (.put "github" valueEntry) := by decide
  have hother : (edit sample ⟨zeroKey⟩ "t" (putting "anthropic")).map Edit.name ≠ some "github" := by decide
  have hlost : (Runs.exec Pool.turn (serve ⟨zeroKey⟩ "t" bothAtOnce noFiles) [0, 1, 0, 1, 0, 1]).shared.store.secrets.get?
      "github" = none := by decide
  have hkept := (h sample ⟨zeroKey⟩ "t" bothAtOnce noFiles [0, 1, 0, 1, 0, 1] sample_lawful (by decide)).2
    [] (putting "github") [putting "anthropic"] "github" valueEntry rfl hput (by simpa using hother)
  rw [hlost] at hkept
  cases hkept

end Sample

end Ipc

end Executor
