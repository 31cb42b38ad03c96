import Apifor.Tenancy
import Apifor.World
import Mathlib.Data.List.Forall2

/-!
# Footprints

`Foot T K w w'` bounds what a part of the program did between two states: it wrote only the tables
`T`, and pushed only envelopes that `K` allows. Other tables may only lose references to rows that
were deleted.
-/

namespace Apifor

/-! ## Tables that were not written -/

/-- A row without the references that a deletion may clear. -/
def core : (t : Tbl) → Row t → Row t
  | .pinnedWorker, r => { r with repoId := none }
  | .task, r => { r with repoId := none }
  | .pullRequest, r => { r with repoId := none }
  | .qaReport, r => { r with repoId := none }
  | .repository, r => { r with connectionId := none }
  | _, r => r

/-- The same row, up to references that were cleared. -/
structure Kept (t : Tbl) (r r' : Row t) : Prop where
  core : core t r' = core t r
  refs : ∀ q ∈ refs t r', q ∈ refs t r

theorem Kept.refl (t : Tbl) (r : Row t) : Kept t r r := ⟨rfl, fun _ h => h⟩

theorem Kept.trans {t : Tbl} {r r' r'' : Row t} (h : Kept t r r') (h' : Kept t r' r'') : Kept t r r'' :=
  ⟨h'.core.trans h.core, fun q hq => h.refs q (h'.refs q hq)⟩

/-- The rows of the tables outside `T` were kept. -/
def Touches (T : Tbl → Bool) (s s' : Store) : Prop :=
  ∀ t, T t = false → List.Forall₂ (Kept t) (s t).rows (s' t).rows

theorem forall₂_trans {α : Type} {R : α → α → Prop} (ht : ∀ a b c, R a b → R b c → R a c) {l l' l'' : List α}
    (h : List.Forall₂ R l l') (h' : List.Forall₂ R l' l'') : List.Forall₂ R l l'' := by
  induction h generalizing l'' with
  | nil => exact h'
  | cons hr _ ih =>
      cases h' with
      | cons hr' hrs' => exact .cons (ht _ _ _ hr hr') (ih hrs')

theorem find?_forall₂ {α : Type} {R : α → α → Prop} {p : α → Bool} (hp : ∀ a b, R a b → p b = p a)
    {l l' : List α} (h : List.Forall₂ R l l') : Option.Rel R (l.find? p) (l'.find? p) := by
  induction h with
  | nil => exact .none
  | @cons a b l l' hr _ ih =>
      rw [List.find?_cons, List.find?_cons, hp a b hr]
      cases p a with
      | true => exact .some hr
      | false => exact ih

theorem mem_forall₂ {α : Type} {R : α → α → Prop} {l l' : List α} (h : List.Forall₂ R l l') {b : α}
    (hb : b ∈ l') : ∃ a ∈ l, R a b := by
  induction h with
  | nil => cases hb
  | @cons a' b' l l' hr _ ih =>
      rcases List.mem_cons.1 hb with rfl | hb
      · exact ⟨a', List.mem_cons_self, hr⟩
      · obtain ⟨a, ha, hab⟩ := ih hb
        exact ⟨a, List.mem_cons_of_mem _ ha, hab⟩

variable {T : Tbl → Bool} {s s' s'' : Store}

namespace Touches

theorem refl (s : Store) : Touches T s s := fun t _ => List.forall₂_same.2 fun r _ => Kept.refl t r

theorem trans (h : Touches T s s') (h' : Touches T s' s'') : Touches T s s'' :=
  fun t ht => forall₂_trans (fun _ _ _ => Kept.trans) (h t ht) (h' t ht)

theorem mono {T' : Tbl → Bool} (hT : ∀ t, T t = true → T' t = true) (h : Touches T s s') : Touches T' s s' := by
  intro t ht
  refine h t ?_
  cases hTt : T t with
  | false => rfl
  | true => rw [hT t hTt] at ht; cases ht

theorem set {t : Tbl} {x : Table (key t)} (ht : T t = true) : Touches T s (s.set t x) := by
  intro t' ht'
  have hne : t' ≠ t := by
    rintro rfl
    rw [ht] at ht'
    cases ht'
  rw [Store.set_of_ne s x hne]
  exact refl s t' ht'

theorem insert {sc : Scope} {t : Tbl} {r : Row t} (ht : T t = true) (h : insert sc t r s = .ok s') :
    Touches T s s' := by
  obtain ⟨x, -, rfl⟩ := insert_eq h
  exact set ht

theorem update {sc : Scope} {t : Tbl} {p : Row t → Bool} {f : Row t → Row t}
    {hf : ∀ r, key t (f r) = key t r} {n : Nat} (ht : T t = true)
    (h : update sc t p f s hf = .ok (s', n)) : Touches T s s' := by
  simp only [Apifor.update] at h
  split_ifs at h
  cases h
  exact set ht

/-- Clearing references keeps every row. -/
theorem fix {t : Tbl} {f : Row t → Row t} {hf : ∀ r, key t (f r) = key t r} (hk : ∀ r, Kept t r (f r)) :
    Touches T s (s.set t ((s t).update (fun _ => true) f hf)) := by
  intro t' ht'
  by_cases ht : t' = t
  · subst ht
    rw [Store.set_same, Table.rows_update]
    exact List.forall₂_map_right_iff.2 (List.forall₂_same.2 fun r _ => hk r)
  · rw [Store.set_of_ne s _ ht]
    exact refl s t' ht'

theorem nullRepo_mem {ids : List Id} {o : Option Id} {i : Id} (h : nullRepo ids o = some i) : o = some i := by
  cases o with
  | none => cases h
  | some j =>
      simp only [nullRepo] at h
      split_ifs at h
      exact h

theorem refs_nullRepo {u : Tbl} {ids : List Id} {o : Option Id} {q : Tbl × Id}
    (h : q ∈ (nullRepo ids o).toList.map (u, ·)) : q ∈ o.toList.map (u, ·) := by
  cases hn : nullRepo ids o with
  | none => simp [hn] at h
  | some i => rwa [nullRepo_mem hn, ← hn]

theorem kept_clearRepo (ids : List Id) (t : Tbl) (r : Row t) : Kept t r (clearRepo ids t r) := by
  cases t with
  | pinnedWorker =>
      refine ⟨rfl, fun q hq => ?_⟩
      simp only [clearRepo, refs, List.mem_append] at hq ⊢
      exact hq.imp_right refs_nullRepo
  | task =>
      refine ⟨rfl, fun q hq => ?_⟩
      simp only [clearRepo, refs, List.mem_append] at hq ⊢
      exact hq.imp_left (Or.imp_right refs_nullRepo)
  | pullRequest =>
      refine ⟨rfl, fun q hq => ?_⟩
      simp only [clearRepo, refs, List.mem_append] at hq ⊢
      exact hq.imp_right refs_nullRepo
  | qaReport =>
      refine ⟨rfl, fun q hq => ?_⟩
      simp only [clearRepo, refs, List.mem_append] at hq ⊢
      exact hq.imp_right refs_nullRepo
  | _ => exact Kept.refl _ r

theorem unlinkRepo (ids : List Id) (t : Tbl) : Touches T s (unlinkRepo ids t s) := fix (kept_clearRepo ids t)

/-- Deleting a repository also drops its memories. -/
theorem delete {sc : Scope} {t : Tbl} {p : Row t → Bool} (ht : T t = true)
    (hm : t = .repository → T .memory = true) : Touches T s (delete sc t p s).1 := by
  have hdel : Touches T s (s.set t ((s t).delete fun r => sc.writes s t r && p r)) := set ht
  refine hdel.trans ?_
  cases t with
  | repository =>
      exact (unlinkRepo _ .pinnedWorker).trans <| (unlinkRepo _ .task).trans <|
        (unlinkRepo _ .pullRequest).trans <| (unlinkRepo _ .qaReport).trans (set (hm rfl))
  | connection =>
      refine fix fun r => ⟨rfl, fun q hq => ?_⟩
      simp only [refs, List.mem_append] at hq ⊢
      exact hq.imp_right refs_nullRepo
  | _ => exact refl _

/-- A table none of whose references can be cleared is the same. -/
theorem rows_eq (h : Touches T s s') {t : Tbl} (ht : T t = false) (hc : ∀ r, core t r = r) :
    (s' t).rows = (s t).rows := by
  have hmap := h t ht
  generalize (s t).rows = l, (s' t).rows = l' at hmap
  induction hmap with
  | nil => rfl
  | @cons a b l l' hr _ ih =>
      have hab : b = a := by rw [← hc b, hr.core, hc a]
      rw [ih, hab]

end Touches

/-! ## Programs -/

/-- The windows and the cached limits of the rate limiter are as they were. -/
structure SameLimits (w w' : World) : Prop where
  win : w'.http.win = w.http.win
  plan : w'.http.plan = w.http.plan

theorem SameLimits.refl (w : World) : SameLimits w w := ⟨rfl, rfl⟩

theorem SameLimits.trans {w w' w'' : World} (h : SameLimits w w') (h' : SameLimits w' w'') : SameLimits w w'' :=
  ⟨h'.win.trans h.win, h'.plan.trans h.plan⟩

/-- Everything but the tables `T` and the memory of the REST side is as it was; of the latter, the rate limiter. -/
structure Frame (T : Tbl → Bool) (w w' : World) : Prop where
  db : Touches T w.db w'.db
  now : w'.now = w.now
  hub : w'.hub = w.hub
  streams : w'.streams = w.streams
  pushed : w'.pushed = w.pushed
  sent : w'.sent = w.sent
  testsSkipped : w'.testsSkipped = w.testsSkipped
  limits : SameLimits w w'

theorem Frame.refl (w : World) : Frame T w w := ⟨Touches.refl _, rfl, rfl, rfl, rfl, rfl, rfl, SameLimits.refl w⟩

theorem Frame.trans {w w' w'' : World} (h : Frame T w w') (h' : Frame T w' w'') : Frame T w w'' :=
  ⟨h.db.trans h'.db, h'.now.trans h.now, h'.hub.trans h.hub, h'.streams.trans h.streams,
    h'.pushed.trans h.pushed, h'.sent.trans h.sent, h'.testsSkipped.trans h.testsSkipped, h.limits.trans h'.limits⟩

/-! ## Channels -/

namespace Hub

variable {h : Hub} {o : Id}

theorem chan_setChan {n m : Nat} {c : Chan} {o' : Id} (hc : n < (h.chans o).length) :
    (h.setChan o n c).chan o' m = if o' = o ∧ m = n then c else h.chan o' m := by
  unfold chan setChan
  dsimp only
  by_cases ho : o' = o
  · subst ho
    rw [Function.update_self]
    by_cases hm : m = n
    · subst hm
      simp [hc]
    · rw [if_neg fun h => hm h.2, List.getD_eq_getElem?_getD, List.getElem?_set_ne (Ne.symm hm),
        ← List.getD_eq_getElem?_getD]
  · rw [Function.update_of_ne ho, if_neg fun h => ho h.1]

/-- A channel that is open has been made. -/
theorem lt_of_open {n : Nat} (hc : (h.chan o n).closed = false) : n < (h.chans o).length := by
  by_contra hn
  have hnone : (h.chans o)[n]? = none := List.getElem?_eq_none (Nat.le_of_not_lt hn)
  rw [chan, List.getD_eq_getElem?_getD, hnone] at hc
  cases hc

theorem length_setChan {n : Nat} {c : Chan} {o' : Id} :
    ((h.setChan o n c).chans o').length = (h.chans o').length := by
  by_cases ho : o' = o
  · subst ho
    simp [setChan]
  · simp [setChan, ho]

/-- No channel of the org but `n` is open. -/
def Sole (h : Hub) (o : Id) (n : Nat) : Prop := ∀ m, (h.chan o m).closed = false → m = n

end Hub

/-- The envelopes that the hub took for an org, in order. -/
def World.accepted (w : World) (o : Id) : List Envelope :=
  (w.pushed.reverse.filter fun p => decide (p.org = o)).map (·.env)

/-- What a program puts on channels: where an org has one open channel, that one gets what the hub takes for the org,
in order. -/
structure Fills (w w' : World) : Prop where
  sent : w'.sent = w.sent
  length : ∀ o, (w'.hub.chans o).length = (w.hub.chans o).length
  closed : ∀ o m, (w'.hub.chan o m).closed = (w.hub.chan o m).closed
  put : ∀ o n, w.hub.Sole o n → ∃ l, w'.accepted o = w.accepted o ++ l ∧
    (w'.hub.chan o n).buf = (w.hub.chan o n).buf ++ l ∧ ∀ m, m ≠ n → w'.hub.chan o m = w.hub.chan o m

namespace Fills

variable {w w' w'' : World}

theorem of_same (hs : w'.sent = w.sent) (hh : w'.hub = w.hub) (hp : w'.pushed = w.pushed) : Fills w w' where
  sent := hs
  length := fun o => by rw [hh]
  closed := fun o m => by rw [hh]
  put := fun o n _ => ⟨[], by simp [World.accepted, hp], by simp [hh], fun m _ => by rw [hh]⟩

theorem refl (w : World) : Fills w w := of_same rfl rfl rfl

theorem trans (h : Fills w w') (h' : Fills w' w'') : Fills w w'' where
  sent := h'.sent.trans h.sent
  length := fun o => (h'.length o).trans (h.length o)
  closed := fun o m => (h'.closed o m).trans (h.closed o m)
  put := fun o n hn => by
    obtain ⟨l, hacc, hbuf, hrest⟩ := h.put o n hn
    obtain ⟨l', hacc', hbuf', hrest'⟩ := h'.put o n fun m hm => hn m (by rwa [← h.closed])
    refine ⟨l ++ l', ?_, ?_, fun m hm => (hrest' m hm).trans (hrest m hm)⟩
    · rw [hacc', hacc, List.append_assoc]
    · rw [hbuf', hbuf, List.append_assoc]

/-- An envelope goes on an open channel. -/
theorem send {o : Id} {n : Nat} {env : Envelope} {c : Chan} (hc : w.hub.chan o n = c) (ho : c.closed = false) :
    Fills w ({ w with hub := w.hub.setChan o n { c with buf := c.buf ++ [env] } }.record o env) := by
  subst hc
  have hlt := Hub.lt_of_open ho
  refine ⟨rfl, fun o' => Hub.length_setChan, fun o' m => ?_, fun o' k hk => ?_⟩
  · change ((w.hub.setChan o n _).chan o' m).closed = _
    rw [Hub.chan_setChan hlt]
    split
    · next heq => rw [heq.1, heq.2]
    · rfl
  · by_cases heq : o' = o
    · subst heq
      have hkn : n = k := hk n ho
      subst hkn
      refine ⟨[env], by simp [World.accepted, World.record], ?_, fun m hm => ?_⟩
      · change ((w.hub.setChan o' n _).chan o' n).buf = _
        rw [Hub.chan_setChan hlt, if_pos ⟨rfl, rfl⟩]
      · change (w.hub.setChan o' n _).chan o' m = _
        rw [Hub.chan_setChan hlt, if_neg fun h => hm h.2]
    · refine ⟨[], by simp [World.accepted, World.record, Ne.symm heq], ?_, fun m _ => ?_⟩
      · change ((w.hub.setChan o n _).chan o' k).buf = _
        rw [Hub.chan_setChan hlt, if_neg fun h => heq h.1, List.append_nil]
      · change (w.hub.setChan o n _).chan o' m = _
        rw [Hub.chan_setChan hlt, if_neg fun h => heq h.1]

end Fills

/-- Only the tables `T` were written, and only envelopes allowed by `K` were pushed, each from a
store that differs from the first one in `T` only. -/
structure Foot (T : Tbl → Bool) (K : Id → Envelope → Prop) (w w' : World) : Prop where
  db : Touches T w.db w'.db
  now : w'.now = w.now
  byOrg : w'.hub.byOrg = w.hub.byOrg
  streams : w'.streams = w.streams
  testsSkipped : ∀ i ∈ w.testsSkipped, i ∈ w'.testsSkipped
  pushed : ∃ l, w'.pushed = l ++ w.pushed ∧
    ∀ p ∈ l, K p.org p.env ∧ Touches T w.db p.db ∧ ∀ i ∈ w.testsSkipped, i ∈ p.testsSkipped

variable {K : Id → Envelope → Prop} {w w' w'' : World}

namespace Foot

theorem refl (w : World) : Foot T K w w :=
  ⟨Touches.refl _, rfl, rfl, rfl, fun _ h => h, [], rfl, fun _ h => by cases h⟩

theorem trans (h : Foot T K w w') (h' : Foot T K w' w'') : Foot T K w w'' := by
  obtain ⟨l, hl, hK⟩ := h.pushed
  obtain ⟨l', hl', hK'⟩ := h'.pushed
  refine ⟨h.db.trans h'.db, h'.now.trans h.now, h'.byOrg.trans h.byOrg, h'.streams.trans h.streams,
    fun i hi => h'.testsSkipped i (h.testsSkipped i hi), l' ++ l, by rw [hl', hl, List.append_assoc], ?_⟩
  intro p hp
  rcases List.mem_append.1 hp with hp | hp
  · obtain ⟨hk, hd, hs⟩ := hK' p hp
    exact ⟨hk, h.db.trans hd, fun i hi => hs i (h.testsSkipped i hi)⟩
  · exact hK p hp

theorem mono {T' : Tbl → Bool} {K' : Id → Envelope → Prop} (hT : ∀ t, T t = true → T' t = true)
    (hK : ∀ o e, K o e → K' o e) (h : Foot T K w w') : Foot T' K' w w' := by
  obtain ⟨l, hl, hp⟩ := h.pushed
  exact ⟨h.db.mono hT, h.now, h.byOrg, h.streams, h.testsSkipped, l, hl, fun p hm =>
    ⟨hK _ _ (hp p hm).1, (hp p hm).2.1.mono hT, (hp p hm).2.2⟩⟩

/-- A change of the store alone. -/
theorem ofDb {s' : Store} (h : Touches T w.db s') : Foot T K w { w with db := s' } :=
  { refl (T := T) (K := K) w with db := h }

end Foot

theorem Frame.foot (h : Frame T w w') : Foot T K w w' where
  db := h.db
  now := h.now
  byOrg := by rw [h.hub]
  streams := h.streams
  testsSkipped := fun i hi => by rwa [h.testsSkipped]
  pushed := ⟨[], h.pushed, fun _ hp => by cases hp⟩

/-- What a step of a program writes and pushes; it leaves the rate limiter alone. -/
structure Pace (T : Tbl → Bool) (K : Id → Envelope → Prop) (w w' : World) : Prop where
  foot : Foot T K w w'
  limits : SameLimits w w'
  fills : Fills w w'

namespace Pace

theorem refl (w : World) : Pace T K w w := ⟨Foot.refl w, SameLimits.refl w, Fills.refl w⟩

theorem trans (h : Pace T K w w') (h' : Pace T K w' w'') : Pace T K w w'' :=
  ⟨h.foot.trans h'.foot, h.limits.trans h'.limits, h.fills.trans h'.fills⟩

theorem mono {T' : Tbl → Bool} {K' : Id → Envelope → Prop} (hT : ∀ t, T t = true → T' t = true)
    (hK : ∀ o e, K o e → K' o e) (h : Pace T K w w') : Pace T' K' w w' := ⟨h.foot.mono hT hK, h.limits, h.fills⟩

end Pace

theorem Frame.pace (h : Frame T w w') : Pace T K w w' := ⟨h.foot, h.limits, .of_same h.sent h.hub h.pushed⟩

/-- What every step of a program writes and pushes. -/
abbrev Within (T : Tbl → Bool) (K : Id → Envelope → Prop) {α : Type} (c : Cmd α) : Prop := Prog.Each (Pace T K) c

theorem Within.run {α : Type} {c : Cmd α} (h : Within T K c) : Prog.Keeps (Pace T K) c :=
  Prog.Each.keeps Pace.refl (fun _ _ _ => Pace.trans) h

theorem Within.keeps {α : Type} {c : Cmd α} (h : Within T K c) : Prog.Keeps (Foot T K) c := fun w => (h.run w).foot

instance {α : Type} (c : Cmd α) : CoeFun (Within T K c) fun _ => ∀ w, Foot T K w (c.run w).1 := ⟨Within.keeps⟩

/-- What a statement keeps, the program of that statement keeps. -/
theorem each_exec {α : Type} {R : World → World → Prop} {n : String} {f : Time → Store → Except DbErr (Store × α)}
    (h : ∀ w s' a, f w.now w.db = .ok (s', a) → R w { w with db := s' }) : Prog.Each R (exec n f) :=
  Prog.Each.attempt fun w w' a hw => by
    obtain ⟨r, hf, heq⟩ := map_eq_ok hw
    cases heq
    exact h _ _ _ hf

namespace Within

variable {α β : Type}

theorem done (a : α) : Within T K (.done a : Cmd α) := Prog.Each.done a

theorem bind {c : Cmd α} {g : α → Cmd β} (hc : Within T K c) (hg : ∀ a, Within T K (g a)) : Within T K (c.bind g) :=
  Prog.Each.bind hc hg

theorem mono {T' : Tbl → Bool} {K' : Id → Envelope → Prop} (hT : ∀ t, T t = true → T' t = true)
    (hK : ∀ o e, K o e → K' o e) {c : Cmd α} (h : Within T K c) : Within T' K' c :=
  Prog.Each.mono (fun _ _ => Pace.mono hT hK) h

theorem query (n : String) (f : Time → Store → Except DbErr α) : Within T K (query n f) :=
  Prog.Each.attempt fun w w' a h => by
    obtain ⟨r, -, heq⟩ := map_eq_ok h
    cases heq
    exact Pace.refl w

theorem exec {n : String} {f : Time → Store → Except DbErr (Store × α)}
    (h : ∀ now s s' a, f now s = .ok (s', a) → Touches T s s') : Within T K (exec n f) :=
  each_exec fun _ _ _ hf => ⟨Foot.ofDb (h _ _ _ _ hf), ⟨rfl, rfl⟩, .of_same rfl rfl rfl⟩

/-- An update whose count is dropped. -/
theorem execUpdate {n : String} {sc : Scope} {t : Tbl} {p : Time → Row t → Bool} {f : Time → Row t → Row t}
    (hf : ∀ now r, key t (f now r) = key t r) (ht : T t = true) :
    Within T K (Apifor.exec n fun now s => (update sc t (p now) (f now) s (hf now)).map fun r => (r.1, ())) :=
  exec fun now s s' a h => by
    cases hu : update sc t (p now) (f now) s (hf now) with
    | error e => rw [hu] at h; cases h
    | ok r => rw [hu] at h; cases h; exact Touches.update ht hu

theorem execInsert {n : String} {sc : Scope} {t : Tbl} {r : Time → Row t} (ht : T t = true) :
    Within T K (Apifor.exec n fun now s => (insert sc t (r now) s).map fun s => (s, ())) :=
  exec fun now s s' a h => by
    cases hi : insert sc t (r now) s with
    | error e => rw [hi] at h; cases h
    | ok s1 => rw [hi] at h; cases h; exact Touches.insert ht hi

theorem newID (pre : String) : Within T K (newID pre) :=
  Prog.Each.lift fun _ => ⟨⟨Touches.refl _, rfl, rfl, rfl, fun _ h => h, [], rfl, fun _ hp => by cases hp⟩, ⟨rfl, rfl⟩,
    .of_same rfl rfl rfl⟩

theorem timeNow : Within T K timeNow := Prog.Each.lift fun w => Pace.refl w

/-- A step of the REST side's memory. -/
theorem memory {f : World → World × α}
    (h : ∀ w, ∃ m, m.win = w.http.win ∧ m.plan = w.http.plan ∧ (f w).1 = { w with http := m }) :
    Within T K (Prog.lift f : Cmd α) := Prog.Each.lift fun w => by
  obtain ⟨m, hwin, hplan, hm⟩ := h w
  rw [hm]
  exact ⟨⟨Touches.refl _, rfl, rfl, rfl, fun _ h => h, [], rfl, fun _ hp => by cases hp⟩, ⟨hwin, hplan⟩,
    .of_same rfl rfl rfl⟩

theorem foot_record {w : World} {org : Id} {env : Envelope} {h : Hub} (hb : h.byOrg = w.hub.byOrg) (hK : K org env) :
    Foot T K w ({ w with hub := h }.record org env) where
  db := Touches.refl _
  now := rfl
  byOrg := hb
  streams := rfl
  testsSkipped := fun _ hi => hi
  pushed := by
    refine ⟨[_], rfl, fun p hp => ?_⟩
    rw [List.mem_singleton.1 hp]
    exact ⟨hK, Touches.refl _, fun _ hi => hi⟩

theorem hubSend {org : Id} {env : Envelope} (hK : K org env) : Within T K (hubSend org env) := by
  refine Prog.Each.act (fun w => Pace.refl w) fun o => ?_
  cases o with
  | none => exact .done _
  | some n =>
      refine Prog.Each.act (fun w => ?_) fun ok => ?_
      · simp only [World.trySend]
        split_ifs with hopen
        · exact Pace.refl w
        · exact ⟨foot_record rfl hK, ⟨rfl, rfl⟩, .send rfl (Bool.eq_false_iff.2 hopen)⟩
        · exact Pace.refl w
      · cases ok with
        | some ok => exact .done _
        | none => exact .crash

theorem streamSend {st : Stream} {env : Envelope} (hK : K st.org env) : Within T K (streamSend st env) := by
  refine Prog.Each.act (fun w => ?_) fun ok => ?_
  · simp only [World.send]
    split_ifs with hopen
    · exact Pace.refl w
    · exact ⟨foot_record rfl hK, ⟨rfl, rfl⟩, .send rfl (Bool.eq_false_iff.2 hopen)⟩
  · cases ok with
    | some _ => exact .done _
    | none => exact .crash

end Within

end Apifor
