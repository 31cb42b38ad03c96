import Apifor.Lemmas.Steps
import Apifor.Theorems.Quota
import Apifor.Theorems.Registry

/-!
# What reaches the executors

The envelopes that the hub takes for an org reach its executors in that order, none twice: the writer of each
stream hands over a stretch of them, and a writer whose stream fails loses the one it was handing over.
-/

namespace Apifor

open Registry (shut push)

variable {w w' : World} {o : Id} {n : Nat}

/-! ## Accounts -/

abbrev Content := MsgType × Payload

/-- What the writer does not stamp. -/
def Envelope.content (e : Envelope) : Content := (e.type, e.payload)

/-- What the writer of the org's channel `n` handed over. -/
def World.handed (w : World) (o : Id) (n : Nat) : List Content :=
  (w.sent.reverse.filter fun s => (w.streams[s.1]?).any fun st => decide (st.org = o ∧ st.out = n)).map (·.2.content)

/-- What waits on the org's channel `n`. -/
def World.waiting (w : World) (o : Id) (n : Nat) : List Content := (w.hub.chan o n).buf.map Envelope.content

/-- What the hub took for the org is, channel by channel, what was handed over, what the writer lost and what waits. A
writer that lost an envelope has stopped. -/
structure Delivered (w : World) (o : Id) (lost : Nat → List Content) : Prop where
  account : (w.accepted o).map Envelope.content =
    (List.range (w.hub.chans o).length).flatMap fun n => w.handed o n ++ lost n ++ w.waiting o n
  one : ∀ n, (lost n).length ≤ 1
  unmade : ∀ n, (w.hub.chans o).length ≤ n → lost n = []
  stopped : ∀ n, lost n ≠ [] → ∀ (i : Nat) (st : Stream), w.streams[i]? = some st → st.org = o → st.out = n →
    st.writer = false

/-- Streams and channels: the open channel of an org is its newest one, and a channel has one stream. -/
structure Wired (w : World) : Prop where
  current : ∀ o m, (w.hub.chan o m).closed = false → w.hub.byOrg o = some m
  newest : ∀ o m, w.hub.byOrg o = some m → m + 1 = (w.hub.chans o).length
  made : ∀ (i : Nat) (st : Stream), w.streams[i]? = some st → st.out < (w.hub.chans st.org).length
  apart : ∀ (i j : Nat) (st st' : Stream), w.streams[i]? = some st → w.streams[j]? = some st' → st.org = st'.org →
    st.out = st'.out → i = j
  known : ∀ s ∈ w.sent, s.1 < w.streams.length

structure Accounted (w : World) : Prop where
  wired : Wired w
  delivered : ∀ o, ∃ lost, Delivered w o lost

/-! ## The hub -/

namespace Hub

variable {h : Hub}

theorem chan_unmade {m : Nat} (hm : (h.chans o).length ≤ m) : h.chan o m = { closed := true } := by
  rw [chan, List.getD_eq_getElem?_getD, List.getElem?_eq_none hm]
  rfl

theorem close_unmade {d : Id} (hn : ¬ n < (h.chans d).length) : h.close d n = h := by
  unfold close setChan
  rw [List.set_eq_of_length_le (Nat.le_of_not_lt hn), Function.update_eq_self]

theorem buf_close {d : Id} {m : Nat} : ((h.close d n).chan o m).buf = (h.chan o m).buf := by
  by_cases hn : n < (h.chans d).length
  · rw [close, chan_setChan hn]
    split
    · next heq => rw [heq.1, heq.2]
    · rfl
  · rw [close_unmade hn]

theorem closed_close {d : Id} {m : Nat} (hopen : ((h.close d n).chan o m).closed = false) :
    (h.chan o m).closed = false ∧ ¬ (o = d ∧ m = n) := by
  by_cases hn : n < (h.chans d).length
  · rw [close, chan_setChan hn] at hopen
    split at hopen
    · cases hopen
    · next hne => exact ⟨hopen, hne⟩
  · rw [close_unmade hn] at hopen
    refine ⟨hopen, ?_⟩
    rintro ⟨rfl, rfl⟩
    exact hn (lt_of_open hopen)

theorem buf_shut {d : Id} {m : Nat} : ((shut h d).chan o m).buf = (h.chan o m).buf :=
  Registry.shut_keeps (P := fun g => (g.chan o m).buf = (h.chan o m).buf) rfl fun _ => buf_close

/-- The channel of an org that is open when its current one was closed is another one. -/
theorem open_shut {d : Id} {m : Nat} (hopen : ((shut h d).chan o m).closed = false) :
    (h.chan o m).closed = false ∧ ¬ (o = d ∧ h.byOrg d = some m) := by
  unfold shut at hopen
  cases hb : h.byOrg d with
  | none =>
      rw [hb] at hopen
      refine ⟨hopen, ?_⟩
      rintro ⟨-, hm⟩
      cases hm
  | some old =>
      rw [hb] at hopen
      obtain ⟨hsame, hne⟩ := closed_close hopen
      refine ⟨hsame, ?_⟩
      rintro ⟨ho, hm⟩
      cases hm
      exact hne ⟨ho, rfl⟩

theorem chan_push {g : Hub} {d : Id} {m : Nat} : (push g d).chan o m =
    if o = d ∧ m = (g.chans d).length then {} else g.chan o m := by
  unfold push chan
  dsimp only
  by_cases ho : o = d
  · subst ho
    rw [Function.update_self, List.getD_eq_getElem?_getD, List.getD_eq_getElem?_getD]
    rcases Nat.lt_trichotomy m (g.chans o).length with hm | hm | hm
    · rw [List.getElem?_append_left hm, if_neg fun h => Nat.ne_of_lt hm h.2]
    · rw [hm, List.getElem?_append_right (Nat.le_refl _), Nat.sub_self, if_pos ⟨rfl, rfl⟩]
      rfl
    · rw [List.getElem?_eq_none (by rw [List.length_append]; exact hm), List.getElem?_eq_none (Nat.le_of_lt hm),
        if_neg fun h => Nat.ne_of_gt hm h.2]
  · rw [Function.update_of_ne ho, if_neg fun h => ho h.1]

theorem chan_register {d : Id} {m : Nat} : (h.register d).1.chan o m =
    if o = d ∧ m = (h.chans d).length then {} else (shut h d).chan o m := by
  rw [Registry.register_eq, chan_push, Registry.length_shut]

theorem length_register {d : Id} : ((h.register d).1.chans o).length =
    if o = d then (h.chans o).length + 1 else (h.chans o).length := by
  rw [Registry.register_eq]
  unfold push
  dsimp only
  by_cases ho : o = d
  · subst ho
    rw [Function.update_self, if_pos rfl, List.length_append, Registry.length_shut, List.length_singleton]
  · rw [Function.update_of_ne ho, if_neg ho, Registry.length_shut]

theorem byOrg_register {d : Id} : (h.register d).1.byOrg = Function.update h.byOrg d (some (h.chans d).length) := by
  rw [Registry.register_eq]
  unfold push
  dsimp only
  rw [Registry.byOrg_shut, Registry.length_shut]

theorem out_register {d : Id} : (h.register d).2 = (h.chans d).length := by
  rw [Registry.register_eq, Registry.length_shut]

theorem buf_register {d : Id} {m : Nat} : ((h.register d).1.chan o m).buf = (h.chan o m).buf := by
  rw [chan_register]
  split
  · next heq => rw [heq.1, heq.2, chan_unmade (Nat.le_refl _)]
  · exact buf_shut

end Hub

/-! ## Steps of a program -/

theorem Delivered.fills {lost : Nat → List Content} (hw : Wired w) (hd : Delivered w o lost) (h : Fills w w')
    (hs : w'.streams = w.streams) : Delivered w' o lost := by
  have hhanded : ∀ n, w'.handed o n = w.handed o n := fun n => by rw [World.handed, World.handed, h.sent, hs]
  refine ⟨?_, hd.one, fun n hn => hd.unmade n (h.length o ▸ hn), by rw [hs]; exact hd.stopped⟩
  have hsole : ∀ n, (w.hub.chans o).length = n + 1 ∨ (w.hub.chans o).length = 0 → w.hub.Sole o n := fun n hn m hm => by
    have hlen := hw.newest o m (hw.current o m hm)
    omega
  have hacc := hd.account
  rw [h.length]
  have hlen' := h.length o
  cases hlen : (w.hub.chans o).length with
  | zero =>
      obtain ⟨l, hl, hbuf, -⟩ := h.put o 0 (hsole 0 (.inr hlen))
      rw [Hub.chan_unmade (by omega), Hub.chan_unmade (by omega)] at hbuf
      rw [hl, ← List.nil_append l, ← hbuf, List.append_nil, hacc, hlen]
      rfl
  | succ k =>
      obtain ⟨l, hl, hbuf, hrest⟩ := h.put o k (hsole k (.inl hlen))
      have hsame : ∀ n ∈ List.range k, w'.handed o n ++ lost n ++ w'.waiting o n =
          w.handed o n ++ lost n ++ w.waiting o n := fun n hn => by
        rw [hhanded, World.waiting, World.waiting, hrest n (Nat.ne_of_lt (List.mem_range.1 hn))]
      rw [hl, List.map_append, hacc, hlen, List.range_succ, List.flatMap_append, List.flatMap_append,
        List.flatMap_congr hsame]
      simp only [List.flatMap_singleton, hhanded, World.waiting, hbuf, List.map_append, List.append_assoc]

theorem Wired.fills (hw : Wired w) (h : Fills w w') (hb : w'.hub.byOrg = w.hub.byOrg) (hs : w'.streams = w.streams) :
    Wired w' where
  current := fun o m hm => by rw [hb]; exact hw.current o m (h.closed o m ▸ hm)
  newest := fun o m hm => by rw [h.length]; exact hw.newest o m (hb ▸ hm)
  made := fun i st hst => by rw [h.length]; exact hw.made i st (hs ▸ hst)
  apart := by rw [hs]; exact hw.apart
  known := by rw [h.sent, hs]; exact hw.known

theorem Accounted.fills (h : Accounted w) (hf : Fills w w') (hb : w'.hub.byOrg = w.hub.byOrg)
    (hs : w'.streams = w.streams) : Accounted w' where
  wired := h.wired.fills hf hb hs
  delivered := fun o => by
    obtain ⟨lost, hd⟩ := h.delivered o
    exact ⟨lost, hd.fills h.wired hf hs⟩

/-! ## Streams -/

theorem handed_unmade (hw : Wired w) (hn : (w.hub.chans o).length ≤ n) : w.handed o n = [] := by
  rw [World.handed, List.map_eq_nil_iff, List.filter_eq_nil_iff]
  intro s _ hany
  cases hst : w.streams[s.1]? with
  | none =>
      rw [hst] at hany
      cases hany
  | some st =>
      rw [hst] at hany
      obtain ⟨rfl, rfl⟩ := of_decide_eq_true hany
      exact absurd (hw.made _ st hst) (Nat.not_lt.2 hn)

/-- What becomes of the accounts when each channel's stretch stays. -/
theorem Delivered.congr {lost lost' : Nat → List Content} (hd : Delivered w o lost) (hpushed : w'.pushed = w.pushed)
    (hlen : (w'.hub.chans o).length = (w.hub.chans o).length)
    (hstretch : ∀ n, w'.handed o n ++ lost' n ++ w'.waiting o n = w.handed o n ++ lost n ++ w.waiting o n)
    (hone : ∀ n, (lost' n).length ≤ 1) (hunmade : ∀ n, (w.hub.chans o).length ≤ n → lost' n = [])
    (hstopped : ∀ n, lost' n ≠ [] → ∀ (i : Nat) (st : Stream), w'.streams[i]? = some st → st.org = o → st.out = n →
      st.writer = false) : Delivered w' o lost' where
  account := by
    rw [World.accepted, hpushed, hlen, List.flatMap_congr fun n _ => hstretch n]
    exact hd.account
  one := hone
  unmade := fun n hn => hunmade n (hlen ▸ hn)
  stopped := hstopped

section

variable {i : Nat} {st x : Stream}

/-- A stream that keeps its channel can be looked up as before. -/
theorem lookup_set (hst : w.streams[i]? = some st) (j : Nat) (y : Stream) (hy : (w.streams.set i x)[j]? = some y) :
    (w.streams[j]? = some y ∧ j ≠ i) ∨ j = i ∧ y = x := by
  by_cases hj : j = i
  · subst hj
    rw [List.getElem?_set_self (List.getElem?_eq_some_iff.1 hst).1, Option.some.injEq] at hy
    exact .inr ⟨rfl, hy.symm⟩
  · rw [List.getElem?_set_ne (Ne.symm hj)] at hy
    exact .inl ⟨hy, hj⟩

theorem any_set (hst : w.streams[i]? = some st) (horg : x.org = st.org) (hout : x.out = st.out) (j : Nat) :
    (((w.streams.set i x)[j]?).any fun y => decide (y.org = o ∧ y.out = n)) =
      (w.streams[j]?).any fun y => decide (y.org = o ∧ y.out = n) := by
  by_cases hj : j = i
  · subst hj
    rw [List.getElem?_set_self (List.getElem?_eq_some_iff.1 hst).1, hst, Option.any_some, Option.any_some, horg, hout]
  · rw [List.getElem?_set_ne (Ne.symm hj)]

/-- A stream is replaced by one on its channel, on a hub with the same channels of which fewer may be open. -/
theorem Wired.replaced (hw : Wired w) {h : Hub} (hst : w.streams[i]? = some st) (horg : x.org = st.org)
    (hout : x.out = st.out) (hlen : ∀ o, (h.chans o).length = (w.hub.chans o).length)
    (hcur : ∀ o m, (h.chan o m).closed = false → h.byOrg o = some m)
    (hnew : ∀ o m, h.byOrg o = some m → w.hub.byOrg o = some m) :
    Wired { w with hub := h, streams := w.streams.set i x } where
  current := hcur
  newest := fun o m hm => by
    have hlast := hw.newest o m (hnew o m hm)
    rwa [← hlen] at hlast
  made := fun j y hy => by
    change y.out < (h.chans y.org).length
    rw [hlen]
    rcases lookup_set hst j y hy with ⟨hy, -⟩ | ⟨-, rfl⟩
    · exact hw.made j y hy
    · rw [horg, hout]
      exact hw.made i st hst
  apart := fun j k y z hy hz ho hn => by
    rcases lookup_set hst j y hy with ⟨hj, -⟩ | ⟨rfl, rfl⟩
    · rcases lookup_set hst k z hz with ⟨hk, -⟩ | ⟨rfl, rfl⟩
      · exact hw.apart j k y z hj hk ho hn
      · exact hw.apart j k y st hj hst (ho.trans horg) (hn.trans hout)
    · rcases lookup_set hst k z hz with ⟨hk, -⟩ | ⟨rfl, -⟩
      · exact hw.apart j k st z hst hk (horg.symm.trans ho) (hout.symm.trans hn)
      · rfl
  known := fun s hs => by
    change s.1 < (w.streams.set i x).length
    rw [List.length_set]
    exact hw.known s hs

theorem Accounted.replaced (ha : Accounted w) {h : Hub} (hst : w.streams[i]? = some st) (horg : x.org = st.org)
    (hout : x.out = st.out) (hwriter : x.writer = true → st.writer = true)
    (hbuf : ∀ o m, (h.chan o m).buf = (w.hub.chan o m).buf)
    (hlen : ∀ o, (h.chans o).length = (w.hub.chans o).length)
    (hcur : ∀ o m, (h.chan o m).closed = false → h.byOrg o = some m)
    (hnew : ∀ o m, h.byOrg o = some m → w.hub.byOrg o = some m) :
    Accounted { w with hub := h, streams := w.streams.set i x } where
  wired := ha.wired.replaced hst horg hout hlen hcur hnew
  delivered := fun o => by
    obtain ⟨lost, hd⟩ := ha.delivered o
    refine ⟨lost, hd.congr rfl (hlen o) (fun n => ?_) hd.one hd.unmade fun n hn j y hy ho hout' => ?_⟩
    · simp only [World.handed, World.waiting, any_set hst horg hout, hbuf]
    · rcases lookup_set hst j y hy with ⟨hy, -⟩ | ⟨-, rfl⟩
      · exact hd.stopped n hn j y hy ho hout'
      · have hoff := hd.stopped n hn i st hst (horg.symm.trans ho) (hout.symm.trans hout')
        cases hx : y.writer with
        | false => rfl
        | true => rw [hwriter hx] at hoff; cases hoff

theorem Accounted.hangUp (ha : Accounted w) (hst : w.streams[i]? = some st) : Accounted (w.hangUp i st) := by
  have hcur := ha.wired.current
  refine ha.replaced (h := w.hub.unregister st.org st.out) (x := { st with recv := false }) hst rfl rfl (fun h => h)
    ?_ ?_ ?_ ?_
  · intro o m
    unfold Hub.unregister
    split
    · exact Hub.buf_close
    · rfl
  · intro o
    unfold Hub.unregister
    split
    · exact Hub.length_setChan
    · rfl
  · intro o m hopen
    unfold Hub.unregister at hopen ⊢
    split
    · next hb =>
        rw [if_pos hb] at hopen
        obtain ⟨hopen, hne⟩ := Hub.closed_close hopen
        have hm := hcur o m hopen
        by_cases ho : o = st.org
        · subst ho
          rw [hb, Option.some.injEq] at hm
          exact absurd ⟨rfl, hm.symm⟩ hne
        · change Function.update w.hub.byOrg st.org none o = some m
          rw [Function.update_of_ne ho, hm]
    · next hb =>
        rw [if_neg hb] at hopen
        exact hcur o m hopen
  · intro o m hm
    unfold Hub.unregister at hm
    split at hm
    · by_cases ho : o = st.org
      · subst ho
        change Function.update w.hub.byOrg st.org none st.org = some m at hm
        rw [Function.update_self] at hm
        cases hm
      · change Function.update w.hub.byOrg st.org none o = some m at hm
        rwa [Function.update_of_ne ho] at hm
    · exact hm

/-- The writer stops. -/
theorem Accounted.halted (ha : Accounted w) (hst : w.streams[i]? = some st) :
    Accounted (w.setStream i { st with writer := false }) :=
  ha.replaced (h := w.hub) (x := { st with writer := false }) hst rfl rfl (fun h => by cases h) (fun _ _ => rfl)
    (fun _ => rfl) ha.wired.current fun _ _ h => h

end

/-! ## The writer -/

section

variable {i : Nat} {st : Stream} {env : Envelope} {rest : List Envelope}

/-- The hub once the writer of a stream took an envelope. -/
def World.drained (w : World) (st : Stream) (rest : List Envelope) : Hub :=
  w.hub.setChan st.org st.out { w.hub.chan st.org st.out with buf := rest }

/-- The writer hands an envelope over. -/
def World.wrote (w : World) (i : Nat) (st : Stream) (env : Envelope) (rest : List Envelope) : World :=
  { w with drawn := w.drawn + 1, hub := w.drained st rest, sent := (i, w.stamp env) :: w.sent }

/-- The writer fails with the envelope that it took. -/
def World.failed (w : World) (i : Nat) (st : Stream) (rest : List Envelope) : World :=
  { w with
    drawn := w.drawn + 1
    hub := w.drained st rest
    streams := w.streams.set i { st with writer := false } }

theorem chan_drained (hw : Wired w) (hst : w.streams[i]? = some st) {m : Nat} :
    (w.drained st rest).chan o m =
      if o = st.org ∧ m = st.out then { w.hub.chan o m with buf := rest } else w.hub.chan o m := by
  rw [World.drained, Hub.chan_setChan (hw.made i st hst)]
  split
  · next heq => rw [heq.1, heq.2]
  · rfl

theorem closed_drained (hw : Wired w) (hst : w.streams[i]? = some st) {m : Nat} :
    ((w.drained st rest).chan o m).closed = (w.hub.chan o m).closed := by
  rw [chan_drained hw hst]
  split
  · rfl
  · rfl

/-- Nothing was lost on a channel whose writer runs. -/
theorem Delivered.unlost {lost : Nat → List Content} (hd : Delivered w st.org lost) (hst : w.streams[i]? = some st)
    (hon : st.writer = true) : lost st.out = [] := by
  by_contra hne
  have hoff := hd.stopped st.out hne i st hst rfl rfl
  rw [hon] at hoff
  cases hoff

theorem handed_wrote (hst : w.streams[i]? = some st) :
    (w.wrote i st env rest).handed o n = w.handed o n ++ if st.org = o ∧ st.out = n then [env.content] else [] := by
  simp only [World.handed, World.wrote, List.reverse_cons, List.filter_append, List.map_append]
  congr 1
  by_cases hc : st.org = o ∧ st.out = n
  · simp [hst, hc, Envelope.content, World.stamp]
  · simp [hst, hc]

theorem Accounted.wrote (ha : Accounted w) (hst : w.streams[i]? = some st) (hon : st.writer = true)
    (hbuf : (w.hub.chan st.org st.out).buf = env :: rest) : Accounted (w.wrote i st env rest) where
  wired :=
    { current := fun o m hm => ha.wired.current o m ((closed_drained ha.wired hst).symm.trans hm)
      newest := fun o m hm => (ha.wired.newest o m hm).trans Hub.length_setChan.symm
      made := fun j y hy => by
        change y.out < ((w.drained st rest).chans y.org).length
        rw [World.drained, Hub.length_setChan]
        exact ha.wired.made j y hy
      apart := ha.wired.apart
      known := fun s hs => by
        rcases List.mem_cons.1 hs with rfl | hs
        · exact (List.getElem?_eq_some_iff.1 hst).1
        · exact ha.wired.known s hs }
  delivered := fun o => by
    obtain ⟨lost, hd⟩ := ha.delivered o
    refine ⟨lost, hd.congr rfl Hub.length_setChan (fun n => ?_) hd.one hd.unmade hd.stopped⟩
    have hchan : (w.drained st rest).chan o n =
        if o = st.org ∧ n = st.out then { w.hub.chan o n with buf := rest } else w.hub.chan o n :=
      chan_drained ha.wired hst
    have hwaiting : (w.wrote i st env rest).waiting o n = ((w.drained st rest).chan o n).buf.map Envelope.content := rfl
    rw [handed_wrote hst, hwaiting, World.waiting, hchan]
    by_cases hc : o = st.org ∧ n = st.out
    · obtain ⟨rfl, rfl⟩ := hc
      rw [if_pos ⟨rfl, rfl⟩, if_pos ⟨rfl, rfl⟩, hd.unlost hst hon, hbuf]
      simp only [List.append_nil, List.map_cons, List.append_assoc, List.singleton_append]
    · rw [if_neg hc, if_neg fun h => hc ⟨h.1.symm, h.2.symm⟩, List.append_nil]

theorem Accounted.failed (ha : Accounted w) (hst : w.streams[i]? = some st) (hon : st.writer = true)
    (hbuf : (w.hub.chan st.org st.out).buf = env :: rest) : Accounted (w.failed i st rest) where
  wired := by
    have hw := ha.wired.replaced (h := w.drained st rest) (x := { st with writer := false }) hst rfl rfl
      (fun _ => Hub.length_setChan)
      (fun o m hm => ha.wired.current o m ((closed_drained ha.wired hst).symm.trans hm)) fun _ _ h => h
    exact ⟨hw.current, hw.newest, hw.made, hw.apart, hw.known⟩
  delivered := fun o => by
    obtain ⟨lost, hd⟩ := ha.delivered o
    refine ⟨fun n => if o = st.org ∧ n = st.out then [env.content] else lost n,
      hd.congr rfl Hub.length_setChan (fun n => ?_) (fun n => ?_) (fun n hn => ?_) fun n hn j y hy ho hout => ?_⟩
    · have hchan : (w.drained st rest).chan o n =
          if o = st.org ∧ n = st.out then { w.hub.chan o n with buf := rest } else w.hub.chan o n :=
        chan_drained ha.wired hst
      simp only [World.handed, World.waiting, World.failed, any_set (x := { st with writer := false }) hst rfl rfl,
        hchan]
      by_cases hc : o = st.org ∧ n = st.out
      · obtain ⟨rfl, rfl⟩ := hc
        rw [if_pos ⟨rfl, rfl⟩, if_pos ⟨rfl, rfl⟩, hd.unlost hst hon, hbuf]
        simp only [List.append_nil, List.map_cons, List.append_assoc, List.singleton_append]
      · rw [if_neg hc, if_neg hc]
    · split
      · exact Nat.le_refl 1
      · exact hd.one n
    · rw [if_neg]
      · exact hd.unmade n hn
      · rintro ⟨rfl, rfl⟩
        exact absurd (ha.wired.made i st hst) (Nat.not_lt.2 hn)
    · rcases lookup_set hst j y hy with ⟨hy, hj⟩ | ⟨-, rfl⟩
      · refine hd.stopped n ?_ j y hy ho hout
        rw [if_neg] at hn
        · exact hn
        · rintro ⟨ho', hout'⟩
          exact hj (ha.wired.apart j i y st hy hst (ho.trans ho') (hout.trans hout'))
      · rfl

theorem Accounted.write (ha : Accounted w) (hst : w.streams[i]? = some st) (hon : st.writer = true) (ok : Bool) :
    Accounted (w.write i st ok) := by
  unfold World.write
  dsimp only
  split
  · split
    · exact ha.halted hst
    · exact ha
  · next env rest hbuf =>
      cases ok with
      | true => exact ha.wrote hst hon hbuf
      | false => exact ha.failed hst hon hbuf

end

/-! ## A new stream -/

/-- A device's stream, on a new channel. -/
def World.joined (w : World) (dev d : Id) : World :=
  { w with
    hub := (w.hub.register d).1
    streams := w.streams ++ [{ device := dev, org := d, out := (w.hub.chans d).length }] }

variable {dev d : Id}

theorem lookup_joined (i : Nat) (y : Stream) (hy : (w.joined dev d).streams[i]? = some y) :
    (w.streams[i]? = some y) ∨
      i = w.streams.length ∧ y = { device := dev, org := d, out := (w.hub.chans d).length } := by
  change (w.streams ++ [_])[i]? = some y at hy
  rcases Nat.lt_or_ge i w.streams.length with hi | hi
  · rw [List.getElem?_append_left hi] at hy
    exact .inl hy
  · rw [List.getElem?_append_right hi, List.getElem?_singleton] at hy
    split at hy
    · next hz => exact .inr ⟨by omega, (Option.some.inj hy).symm⟩
    · cases hy

theorem Wired.joined (hw : Wired w) : Wired (w.joined dev d) where
  current := fun o m hm => by
    change ((w.hub.register d).1.chan o m).closed = false at hm
    change (w.hub.register d).1.byOrg o = some m
    rw [Hub.byOrg_register]
    rw [Hub.chan_register] at hm
    split at hm
    · next heq => rw [heq.1, heq.2, Function.update_self]
    · obtain ⟨hopen, hne⟩ := Hub.open_shut hm
      have hcur := hw.current o m hopen
      by_cases ho : o = d
      · subst ho
        exact absurd ⟨rfl, hcur⟩ hne
      · rw [Function.update_of_ne ho, hcur]
  newest := fun o m hm => by
    change (w.hub.register d).1.byOrg o = some m at hm
    change m + 1 = ((w.hub.register d).1.chans o).length
    rw [Hub.byOrg_register] at hm
    rw [Hub.length_register]
    by_cases ho : o = d
    · subst ho
      rw [Function.update_self, Option.some.injEq] at hm
      rw [if_pos rfl, hm]
    · rw [Function.update_of_ne ho] at hm
      rw [if_neg ho]
      exact hw.newest o m hm
  made := fun i y hy => by
    change y.out < ((w.hub.register d).1.chans y.org).length
    rw [Hub.length_register]
    rcases lookup_joined i y hy with hy | ⟨-, rfl⟩
    · have hlt := hw.made i y hy
      split
      · exact Nat.lt_succ_of_lt hlt
      · exact hlt
    · rw [if_pos rfl]
      exact Nat.lt_succ_self _
  apart := fun i j y z hy hz ho hn => by
    rcases lookup_joined i y hy with hi | ⟨rfl, rfl⟩
    · rcases lookup_joined j z hz with hj | ⟨rfl, rfl⟩
      · exact hw.apart i j y z hi hj ho hn
      · have hlt := hw.made i y hi
        rw [ho, hn] at hlt
        exact absurd hlt (Nat.lt_irrefl _)
    · rcases lookup_joined j z hz with hj | ⟨rfl, -⟩
      · have hlt := hw.made j z hj
        rw [← ho, ← hn] at hlt
        exact absurd hlt (Nat.lt_irrefl _)
      · rfl
  known := fun s hs => by
    change s.1 < (w.streams ++ [_]).length
    rw [List.length_append]
    exact Nat.lt_add_right _ (hw.known s hs)

theorem handed_joined (hw : Wired w) : (w.joined dev d).handed o n = w.handed o n := by
  unfold World.handed
  congr 1
  refine List.filter_congr fun s hs => ?_
  change ((w.streams ++ [_])[s.1]?).any _ = _
  rw [List.getElem?_append_left (hw.known s (List.mem_reverse.1 hs))]

theorem Accounted.joined (ha : Accounted w) : Accounted (w.joined dev d) where
  wired := ha.wired.joined
  delivered := fun o => by
    obtain ⟨lost, hd⟩ := ha.delivered o
    have hstretch : ∀ n, (w.joined dev d).handed o n ++ lost n ++ (w.joined dev d).waiting o n =
        w.handed o n ++ lost n ++ w.waiting o n := fun n => by
      have hbuf : (w.joined dev d).waiting o n = w.waiting o n := congrArg (List.map _) Hub.buf_register
      rw [handed_joined ha.wired, hbuf]
    refine ⟨lost, ?_, hd.one, fun n hn => hd.unmade n ?_, fun n hn i y hy ho hout => ?_⟩
    · change (w.accepted o).map Envelope.content = (List.range ((w.hub.register d).1.chans o).length).flatMap _
      rw [Hub.length_register, hd.account, List.flatMap_congr fun n _ => hstretch n]
      split
      · rw [List.range_succ, List.flatMap_append, List.flatMap_singleton, handed_unmade ha.wired (Nat.le_refl _),
          hd.unmade _ (Nat.le_refl _), World.waiting, Hub.chan_unmade (Nat.le_refl _)]
        simp only [List.map_nil, List.append_nil]
      · rfl
    · change ((w.hub.register d).1.chans o).length ≤ n at hn
      rw [Hub.length_register] at hn
      split at hn
      · exact Nat.le_of_succ_le hn
      · exact hn
    · rcases lookup_joined i y hy with hy | ⟨-, rfl⟩
      · exact hd.stopped n hn i y hy ho hout
      · cases ho
        cases hout
        exact absurd (hd.unmade _ (Nat.le_refl _)) hn

theorem Accounted.openStream (ha : Accounted w) (serial : String) : Accounted ((Server.openStream serial).run w).1 := by
  simp only [Server.openStream, DB.findDeviceBySerial, Prog.bind_def, Prog.run_bind, DB.run_read]
  cases DB.findDevice w.db serial with
  | none => exact ha
  | some dv =>
      have hjoined : Accounted (w.joined dv.id dv.orgId) := ha.joined
      rw [World.joined, ← Hub.out_register] at hjoined
      exact hjoined

/-! ## Runs -/

/-- What a program leaves the streams to. -/
structure Feeds (w w' : World) : Prop where
  fills : Fills w w'
  byOrg : w'.hub.byOrg = w.hub.byOrg
  streams : w'.streams = w.streams

theorem Feeds.of_pace {T : Tbl → Bool} {K : Id → Envelope → Prop} (h : Pace T K w w') : Feeds w w' :=
  ⟨h.fills, h.foot.byOrg, h.foot.streams⟩

theorem blind_feeds : API.Blind Feeds where
  refl := fun w => ⟨Fills.refl w, rfl, rfl⟩
  trans := fun _ _ _ h h' => ⟨h.fills.trans h'.fills, h'.byOrg.trans h.byOrg, h'.streams.trans h.streams⟩
  memory := fun _ _ => ⟨.of_same rfl rfl rfl, rfl, rfl⟩

theorem Accounted.feeds (ha : Accounted w) (h : Feeds w w') : Accounted w' := ha.fills h.fills h.byOrg h.streams

theorem Accounted.crashed (ha : Accounted w) (b : Bool) : Accounted { w with crashed := b } :=
  ha.feeds ⟨.of_same rfl rfl rfl, rfl, rfl⟩

theorem Accounted.goroutine {α : Type} {c : Cmd α} {T : Tbl → Bool} {K : Id → Envelope → Prop} (ha : Accounted w)
    (hc : Within T K c) : Accounted (w.goroutine c) := (ha.feeds (.of_pace (hc.run w))).crashed _

theorem step_accounted (a : API) (ha : Accounted w) (e : Event) : Accounted (step a w e) := by
  unfold step
  split
  · exact ha
  · cases e with
    | tick d => exact ha.feeds ⟨.of_same rfl rfl rfl, rfl, rfl⟩
    | enroll orgID userID serial =>
        refine ha.goroutine (T := outerTables) (K := fun _ _ => True) (Within.bind (.newID _) fun _ => ?_)
        exact Within.bind (DB.createDeviceCert_within rfl) fun _ => .done _
    | connect serial => exact ((ha.openStream serial).crashed _).crashed _
    | recv i env =>
        unfold react
        dsimp only
        cases hi : w.streams[i]? with
        | none => exact ha
        | some st =>
            dsimp only
            split
            · exact ha.goroutine (onMessage_within (T := messageTables) (K := fun _ _ => True) a.server st env
                (fun _ h _ => h) (fun _ => rfl) (fun _ _ _ _ _ => trivial) fun _ _ _ => trivial)
            · exact ha
    | disconnect i =>
        unfold react
        dsimp only
        cases hi : w.streams[i]? with
        | none => exact ha
        | some st =>
            dsimp only
            split
            · exact ha.hangUp hi
            · exact ha
    | deliver i ok =>
        unfold react
        dsimp only
        cases hi : w.streams[i]? with
        | none => exact ha
        | some st =>
            dsimp only
            split
            · next hon => exact ha.write hi hon ok
            · exact ha
    | rest r =>
        refine ha.feeds (API.serve_rel blind_feeds fun _ entry he hp m _ => ?_)
        obtain ⟨T, hpace⟩ := Quota.route_pace he hp { w with http := m }
        exact .of_pace hpace
    | poll i token account =>
        unfold react
        dsimp only
        cases hi : w.http.ghPolls[i]? with
        | none => exact ha
        | some p => exact ha.goroutine (pollTurn_within (T := outerTables) (K := fun _ _ => True) rfl)
    | reap => exact ha.goroutine (Server.reapOnce_within (K := fun _ _ => True) (fun _ _ _ => trivial) a.server)
    | sched => exact ha.goroutine (Server.schedule_within (K := fun _ _ => True) a.server fun _ _ _ _ => trivial)

/-- A process that has just started over the store. -/
def World.booted (w : World) : World :=
  { db := w.db, now := w.now, ulid := w.ulid, drawn := w.drawn, nonce := w.nonce }

theorem accounted_booted (w : World) : Accounted w.booted where
  wired :=
    { current := fun o m hm => by cases hm
      newest := fun o m hm => by cases hm
      made := fun i st hst => by cases hst
      apart := fun i j st st' hst => by cases hst
      known := fun s hs => by cases hs }
  delivered := fun o => ⟨fun _ => [], rfl, fun _ => Nat.zero_le 1, fun _ _ => rfl, fun n hn => absurd rfl hn⟩

/-- However streams come and go and their writers fail: an org's envelopes reach its executors in the order in which the
hub took them, each once at most. -/
theorem delivered_in_order (a : API) (w : World) (es : List Event) :
    Runs.Always (step a) (fun v => ∀ o, ∃ lost, Delivered v o lost) w.booted es := by
  have haccounted : Runs.Always (step a) Accounted w.booted es :=
    Runs.always_of_meets (C := fun _ _ => True) (fun _ e ha _ => step_accounted a ha e) (accounted_booted w)
      (.of_forall (fun _ _ => trivial) _ _)
  exact haccounted.mono fun v ha => ha.delivered

end Apifor
