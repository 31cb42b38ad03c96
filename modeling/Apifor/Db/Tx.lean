import Apifor.Db.Pipeline
import Apifor.Footprint

/-!
# Transactions of one org

`withOrg` runs a transaction with `app.current_org` set. A `Tx T B α` is the body of such a
transaction for org `B`, together with the proofs that it writes only the tables `T` and, under
row-level security, leaves the rows of every other org alone. An `OrgM T B α` is a program made of
such transactions, of queries and of steps of memory; it inherits both facts.
-/

namespace Apifor

variable {T : Tbl → Bool} {A B : Id}

/-! ## Transactions -/

structure Tx (T : Tbl → Bool) (B : Id) (α : Type) where
  run : Scope → Time → Store → Except DbErr (Store × α)
  touches : ∀ {sc now s s' a}, run sc now s = .ok (s', a) → Touches T s s'
  isolated : ∀ {A now s s' a}, A ≠ B → SelfContained A s → run (.org B) now s = .ok (s', a) → SameRows A s s'

namespace Tx

variable {α β : Type}

instance : Monad (Tx T B) where
  pure a :=
    { run := fun _ _ s => .ok (s, a)
      touches := fun h => by cases h; exact Touches.refl _
      isolated := fun _ _ h => by cases h; exact SameRows.refl _ _ }
  bind x k :=
    { run := fun sc now s =>
        match x.run sc now s with
        | .error e => .error e
        | .ok r => (k r.2).run sc now r.1
      touches := fun {sc now s s' a} h => by
        cases hx : x.run sc now s with
        | error e => simp [hx] at h
        | ok r =>
            simp only [hx] at h
            exact (x.touches hx).trans ((k r.2).touches h)
      isolated := fun {A now s s' a} hab hs h => by
        cases hx : x.run (.org B) now s with
        | error e => simp [hx] at h
        | ok r =>
            simp only [hx] at h
            have h1 := x.isolated hab hs hx
            exact h1.trans ((k r.2).isolated hab (hs.congr h1) h) }

def fail (e : DbErr) : Tx T B α where
  run := fun _ _ _ => .error e
  touches := fun h => by cases h
  isolated := fun _ _ h => by cases h

/-- `now()`. -/
def now : Tx T B Time where
  run := fun _ now s => .ok (s, now)
  touches := fun h => by cases h; exact Touches.refl _
  isolated := fun _ _ h => by cases h; exact SameRows.refl _ _

/-- A `SELECT` over one table. -/
def rows (t : Tbl) : Tx T B (List (Row t)) where
  run := fun sc _ s => .ok (s, select sc s t)
  touches := fun h => by cases h; exact Touches.refl _
  isolated := fun _ _ h => by cases h; exact SameRows.refl _ _

def insert (t : Tbl) (r : Row t) (ht : T t = true := by rfl) : Tx T B Unit where
  run := fun sc _ s => (Apifor.insert sc t r s).map fun s => (s, ())
  touches := fun {sc now s s' a} h => by
    cases hi : Apifor.insert sc t r s with
    | error e => simp [hi, Except.map] at h
    | ok s1 => simp only [hi, Except.map] at h; cases h; exact Touches.insert ht hi
  isolated := fun {A now s s' a} hab _ h => by
    cases hi : Apifor.insert (.org B) t r s with
    | error e => simp [hi, Except.map] at h
    | ok s1 => simp only [hi, Except.map] at h; cases h; exact sameRows_insert_org hab hi

/-- The result is the number of rows affected. -/
def update (t : Tbl) (p : Row t → Bool) (f : Row t → Row t) (hf : ∀ r, key t (f r) = key t r := by intro; rfl)
    (ht : T t = true := by rfl) : Tx T B Nat where
  run := fun sc _ s => Apifor.update sc t p f s hf
  touches := fun h => Touches.update ht h
  isolated := fun hab _ h => sameRows_update_org hab h

def delete (t : Tbl) (p : Row t → Bool) (ht : T t = true := by rfl)
    (hm : t = .repository → T .memory = true := by intro h; cases h) : Tx T B Nat where
  run := fun sc _ s => .ok (Apifor.delete sc t p s)
  touches := fun h => by cases h; exact Touches.delete ht hm
  isolated := fun hab hs h => by cases h; exact sameRows_delete_org hab hs

section Run

variable {α β : Type} {sc : Scope} {now : Time} {s : Store}

theorem run_bind (x : Tx T B α) (k : α → Tx T B β) :
    (x >>= k).run sc now s =
      match x.run sc now s with
      | .error e => .error e
      | .ok r => (k r.2).run sc now r.1 := rfl

theorem run_rows (t : Tbl) : (rows t : Tx T B _).run sc now s = .ok (s, select sc s t) := rfl

theorem bind_ok {x : Tx T B α} {k : α → Tx T B β} {q : Store × β} (h : (x >>= k).run sc now s = .ok q) :
    ∃ p, x.run sc now s = .ok p ∧ (k p.2).run sc now p.1 = .ok q := by
  rw [run_bind] at h
  cases hx : x.run sc now s with
  | error e => rw [hx] at h; cases h
  | ok p => rw [hx] at h; exact ⟨p, rfl, h⟩

theorem insert_ok {t : Tbl} {r : Row t} {ht : T t = true} {s' : Store} {y : Unit}
    (h : (insert (B := B) t r ht).run sc now s = .ok (s', y)) : Apifor.insert sc t r s = .ok s' := by
  obtain ⟨s1, hi, heq⟩ := map_eq_ok (x := Apifor.insert sc t r s) h
  cases heq
  exact hi

end Run

end Tx

/-! ## Programs -/

/-- What the hub holds for an org, and what was pushed to it. -/
structure SamePushes (A : Id) (w w' : World) : Prop where
  byOrg : w'.hub.byOrg A = w.hub.byOrg A
  chans : w'.hub.chans A = w.hub.chans A
  pushed : w'.pushed.filter (fun p => decide (p.org = A)) = w.pushed.filter fun p => decide (p.org = A)

theorem SamePushes.refl (A : Id) (w : World) : SamePushes A w w := ⟨rfl, rfl, rfl⟩

theorem SamePushes.trans {w w' w'' : World} (h : SamePushes A w w') (h' : SamePushes A w' w'') :
    SamePushes A w w'' :=
  ⟨h'.byOrg.trans h.byOrg, h'.chans.trans h.chans, h'.pushed.trans h.pushed⟩

/-- The rows of org `A` and what it is sent are as they were. -/
structure Untouched (A : Id) (w w' : World) : Prop where
  rows : SameRows A w.db w'.db
  pushes : SamePushes A w w'

theorem Untouched.refl (A : Id) (w : World) : Untouched A w w := ⟨SameRows.refl _ _, SamePushes.refl _ _⟩

theorem Untouched.trans {w w' w'' : World} (h : Untouched A w w') (h' : Untouched A w' w'') :
    Untouched A w w'' := ⟨h.rows.trans h'.rows, h.pushes.trans h'.pushes⟩

/-- A world in which `A` is self-contained keeps `A` untouched. -/
def Isolates (A : Id) (w w' : World) : Prop := SelfContained A w.db → Untouched A w w'

theorem Isolates.refl (A : Id) (w : World) : Isolates A w w := fun _ => Untouched.refl A w

theorem Isolates.trans {w w' w'' : World} (h : Isolates A w w') (h' : Isolates A w' w'') : Isolates A w w'' :=
  fun hs => (h hs).trans (h' (hs.congr (h hs).rows))

structure OrgM (T : Tbl → Bool) (B : Id) (α : Type) : Type 1 where
  cmd : Bool → Cmd α
  frame : ∀ rls, Prog.Each (Frame T) (cmd rls)
  isolates : ∀ {A}, A ≠ B → Prog.Keeps (Isolates A) (cmd true)

namespace OrgM

variable {α β : Type}

instance : Monad (OrgM T B) where
  pure a :=
    { cmd := fun _ => .done a
      frame := fun _ => .done a
      isolates := fun _ => .done (Isolates.refl _) a }
  bind x k :=
    { cmd := fun rls => (x.cmd rls).bind fun a => (k a).cmd rls
      frame := fun rls => .bind (x.frame rls) fun a => (k a).frame rls
      isolates := fun {A} hab => .bind (R := Isolates A) (fun _ _ _ => Isolates.trans) (x.isolates hab) fun a => (k a).isolates hab }

/-- `withOrg(ctx, org, fn)`. -/
def tx (name : String) (x : Tx T B α) : OrgM T B (Except DbErr α) where
  cmd := fun rls => exec name fun now s => x.run (withOrg rls B) now s
  frame := fun rls => .attempt fun w w' a h => by
    obtain ⟨r, hr, heq⟩ := map_eq_ok h
    cases heq
    exact { Frame.refl (T := T) w with db := x.touches hr, limits := ⟨rfl, rfl⟩ }
  isolates := fun {A} hab w hs => by
    rw [run_exec]
    cases h : x.run (withOrg true B) w.now w.db with
    | error e => exact Untouched.refl A w
    | ok r => exact ⟨x.isolated hab hs h, rfl, rfl, rfl⟩

/-- A program that only reads. -/
def ofRead (c : Cmd α) (hc : DB.ReadOnly c) : OrgM T B α where
  cmd := fun _ => c
  frame := fun _ => hc.steps.mono fun w _ heq => heq ▸ Frame.refl w
  isolates := fun {A} _ w _ => by
    obtain ⟨a, ha⟩ := hc.run w
    rw [ha]
    exact Untouched.refl A w

/-- `orgList`: a query in the scope of the org, on the rows that the scope shows. -/
def view (name : String) (f : Time → ((t : Tbl) → List (Row t)) → Except DbErr α) :
    OrgM T B (Except DbErr α) where
  cmd := fun rls => Apifor.query name fun now s => f now (select (withOrg rls B) s)
  frame := fun _ => (DB.ReadOnly.query _ _).steps.mono fun w _ heq => heq ▸ Frame.refl w
  isolates := fun {A} _ w _ => by rw [run_query]; exact Untouched.refl A w

/-- A step of the REST side's memory. -/
def mem (f : Time → HttpMemory → HttpMemory × α)
    (hf : ∀ now m, (f now m).1.win = m.win ∧ (f now m).1.plan = m.plan := by exact fun _ _ => ⟨rfl, rfl⟩) :
    OrgM T B α where
  cmd := fun _ => .lift fun w => ({ w with http := (f w.now w.http).1 }, (f w.now w.http).2)
  frame := fun _ => .lift fun w => ⟨Touches.refl _, rfl, rfl, rfl, rfl, rfl, rfl, (hf w.now w.http).1, (hf w.now w.http).2⟩
  isolates := fun _ _ _ => ⟨SameRows.refl _ _, rfl, rfl, rfl⟩

/-- A query on the privileged pool. -/
def query (name : String) (f : Time → Store → Except DbErr α) : OrgM T B (Except DbErr α) where
  cmd := fun _ => Apifor.query name f
  frame := fun _ => (DB.ReadOnly.query _ _).steps.mono fun w _ heq => heq ▸ Frame.refl w
  isolates := fun {A} _ w _ => by rw [run_query]; exact Untouched.refl A w

/-- An insertion on the privileged pool of a row of `B`. -/
def insertOwn (name : String) (t : Tbl) (r : Time → Row t) (hown : ∀ A s now, A ≠ B → owns A s t (r now) = false)
    (ht : T t = true := by rfl) : OrgM T B (Except DbErr Unit) where
  cmd := fun _ => DB.insertRow name t r
  frame := fun _ => .attempt fun w w' a h => by
    obtain ⟨q, hq, heq⟩ := map_eq_ok h
    cases heq
    obtain ⟨s, hs, heq⟩ := map_eq_ok hq
    cases heq
    exact { Frame.refl (T := T) w with db := Touches.insert ht hs, limits := ⟨rfl, rfl⟩ }
  isolates := fun {A} hab w _ => by
    rw [DB.insertRow, run_exec]
    cases h : insert .all t (r w.now) w.db with
    | error e => exact Untouched.refl A w
    | ok s => exact ⟨sameRows_insert h (hown A w.db w.now hab), rfl, rfl, rfl⟩

/-- The state of a web flow: 24 random bytes in hexadecimal. -/
def newNonce : OrgM T B String where
  cmd := fun _ => .lift fun w => ({ w with drawn := w.drawn + 1 }, w.nonce w.drawn)
  frame := fun _ => .lift fun _ => ⟨Touches.refl _, rfl, rfl, rfl, rfl, rfl, rfl, rfl, rfl⟩
  isolates := fun _ _ _ => ⟨SameRows.refl _ _, rfl, rfl, rfl⟩

def newID (pre : String) : OrgM T B Id where
  cmd := fun _ => Apifor.newID pre
  frame := fun _ => .lift fun _ => ⟨Touches.refl _, rfl, rfl, rfl, rfl, rfl, rfl, rfl, rfl⟩
  isolates := fun _ _ _ => ⟨SameRows.refl _ _, rfl, rfl, rfl⟩

def timeNow : OrgM T B Time where
  cmd := fun _ => Apifor.timeNow
  frame := fun _ => .lift fun w => Frame.refl w
  isolates := fun _ w _ => Untouched.refl _ w

end OrgM

end Apifor
