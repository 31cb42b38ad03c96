import Apifor.Theorems.Submit

/-!
# Output in chunks

What the sidecar answers on the output that it has read so far, against what it answers on the whole output. A
hyperlink is found complete or not at all; a plain URL and a token end where the chunk ends.
-/

namespace Sidecar

open Utf8

variable {cs more : Bytes}

/-! ## The URL -/

/-- What is found in a part of the output is what the whole output has: a hyperlink, or the longest of the plain URLs
where no hyperlink and no longer URL follows that reads otherwise. -/
def Shown (buf whole : Bytes) : Prop :=
  linked buf = [] → ∀ u, FirstLongest (plain buf) u →
    match linked whole with
    | v :: _ => decode v = decode u
    | [] => ∀ v, FirstLongest (plain whole) v → u.length < v.length → decode v = decode u

theorem shown_iff_decode {u : Bytes} (h : extractUrl cs = some u) :
    (extractUrl (cs ++ more)).map decode = some (decode u) ↔ Shown cs (cs ++ more) := by
  unfold extractUrl at h
  unfold Shown
  split at h
  · next v vs hlinked =>
      cases h
      obtain ⟨ws, hws⟩ := linked_grows cs more
      rw [hlinked, List.cons_append] at hws
      refine iff_of_true ?_ fun hnil => ?_
      · rw [extractUrl, ← hws]
        rfl
      · rw [hlinked] at hnil
        cases hnil
  · next hlinked =>
      have hfirst := longest_iff.1 h
      unfold extractUrl
      cases linked (cs ++ more) with
      | cons v vs =>
          dsimp only
          rw [Option.map_some, Option.some.injEq]
          constructor
          · intro heq _ u' hu'
            rw [hu'.unique hfirst]
            exact heq
          · intro hshown
            exact hshown hlinked u hfirst
      | nil =>
          dsimp only
          constructor
          · intro heq _ u' hu' v hv _
            rw [longest_iff.2 hv] at heq
            rw [hu'.unique hfirst]
            exact Option.some.inj heq
          · intro hshown
            cases hlong : longest (plain (cs ++ more)) with
            | none =>
                rcases plain_grows cs more with hp | ⟨as, x, x', zs, hx, hx', -⟩
                · rw [longest_eq_none.1 hlong] at hp
                  rw [List.prefix_nil.1 hp] at h
                  cases h
                · rw [longest_eq_none.1 hlong] at hx'
                  simp at hx'
            | some v =>
                have hv := longest_iff.1 hlong
                by_cases hlt : u.length < v.length
                · rw [Option.map_some, hshown hlinked u hfirst v hv hlt]
                · have hstay := firstLongest_grows more hfirst fun w hw =>
                    Nat.le_trans (hv.le hw) (Nat.le_of_not_lt hlt)
                  rw [hstay.unique hv]
                  rfl

/-- All that can be read. -/
def outputOf : List Poll → Bytes
  | [] => []
  | p :: ps =>
      match p.read with
      | .chunk bs => bs ++ outputOf ps
      | _ => outputOf ps

/-- Where the loop ends by itself the output has no URL, and where it finds one that is what the output has. -/
def Settles (deadline : Millis) (whole : Bytes) : Bytes → List Poll → Prop
  | _, [] => linked whole = [] ∧ plain whole = []
  | buf, p :: ps =>
      if deadline ≤ p.now then linked whole = [] ∧ plain whole = []
      else
        match p.read with
        | .nothing => Settles deadline whole buf ps
        | .closed => linked whole = [] ∧ plain whole = []
        | .chunk [] => linked whole = [] ∧ plain whole = []
        | .chunk bs =>
            if linked (buf ++ bs) = [] ∧ plain (buf ++ bs) = [] then Settles deadline whole (buf ++ bs) ps
            else Shown (buf ++ bs) whole

theorem extractUrl_eq_none : extractUrl cs = none ↔ linked cs = [] ∧ plain cs = [] := by
  unfold extractUrl
  cases linked cs with
  | nil =>
      dsimp only
      rw [longest_eq_none]
      simp
  | cons u us => simp

theorem readUrl_iff (deadline : Millis) (buf : Bytes) (polls : List Poll) :
    (readUrl deadline buf polls).1.map decode = (extractUrl (buf ++ outputOf polls)).map decode ↔
      Settles deadline (buf ++ outputOf polls) buf polls := by
  have hends : ∀ whole : Bytes, (none : Option Bytes).map decode = (extractUrl whole).map decode ↔
      linked whole = [] ∧ plain whole = [] := fun whole => by
    rw [← extractUrl_eq_none, Option.map_none, eq_comm, Option.map_eq_none_iff]
  induction polls generalizing buf with
  | nil => exact hends _
  | cons p ps ih =>
      rw [readUrl, Settles, outputOf]
      by_cases hlate : deadline ≤ p.now
      · rw [if_pos hlate, if_pos hlate]
        exact hends _
      · rw [if_neg hlate, if_neg hlate]
        cases p.read with
        | nothing => exact ih buf
        | closed => exact hends _
        | chunk bs =>
            cases bs with
            | nil => exact hends _
            | cons b bs =>
                dsimp only
                rw [← List.append_assoc]
                cases hurl : extractUrl (buf ++ b :: bs) with
                | none =>
                    rw [if_pos (extractUrl_eq_none.1 hurl)]
                    exact ih _
                | some u =>
                    have hfound : ¬ (linked (buf ++ b :: bs) = [] ∧ plain (buf ++ b :: bs) = []) := fun hnil => by
                      rw [extractUrl_eq_none.2 hnil] at hurl
                      cases hurl
                    rw [if_neg hfound, eq_comm]
                    exact shown_iff_decode hurl

theorem startFlow_eq {now : Millis} {polls polls' : List Poll} :
    startFlow now polls = startFlow now polls' ↔
      (readUrl (now + 30000) [] polls).1.map decode = (readUrl (now + 30000) [] polls').1.map decode := by
  unfold startFlow
  cases (readUrl (now + 30000) [] polls).1 <;> cases (readUrl (now + 30000) [] polls').1 <;> simp

/-- All of the output in one read. -/
theorem readUrl_whole (now : Millis) (whole : Bytes) :
    (readUrl (now + 30000) [] [⟨now, .chunk whole⟩]).1 = extractUrl whole := by
  have hnow : ¬ now + 30000 ≤ now := Nat.not_le.2 (Nat.lt_add_of_pos_right (by decide))
  rw [readUrl, if_neg hnow]
  cases whole with
  | nil => rfl
  | cons b bs =>
      dsimp only
      rw [List.nil_append]
      cases extractUrl (b :: bs) with
      | none => rfl
      | some u => rfl

/-! ## The token -/

/-- What happens to a flow whose output is all printed. -/
inductive Beat
  | tick (d : Nat)
  | drain (n : Nat)
  | ends
  | go (fault : Option String)

def Beat.event : Beat → Event
  | .tick d => .tick d
  | .drain n => .drain n
  | .ends => .ends
  | .go fault => .go fault

def beat (s : State) (b : Beat) : State := step s b.event

/-- The token that the flow has stored. -/
def State.kept (s : State) : Option String :=
  match s.account.oauthToken with
  | some (.stored token) => some token
  | _ => none

/-- The code is submitted when all of the output has been read. -/
def atOnce (now : Millis) (credentials oauthToken : Option String) (whole : Bytes) : State :=
  Runs.exec beat (submitted now credentials oauthToken whole [] true) (List.replicate 10 (.go none))

/-- The tokens that the whole output shows: at its end, or else anywhere if the loop does not end with the files of
an earlier flow. -/
def State.shows (s : State) : List (List Char) :=
  match tokens (lastOf 4000 s.printed) with
  | [] => if s.account = {} then tokens s.printed else []
  | t :: ts => t :: ts

/-- The token found in a part of the output is not cut in what the whole output shows. -/
def State.Whole (s : State) (part : Bytes) : Prop := ∀ t, FirstLongest (tokens part) t → ¬ Cut s.shows t

/-- No cut falls where the answer is decided: a token that is found is not cut, where the flow closes or a file is found
the output has none to show, and at the end none is left undrained. -/
def Same (s : State) : Beat → Prop
  | .go fault =>
      match s.pc with
      | .code | .enter => fault ≠ none → s.shows = []
      | .look => s.now < s.deadline → s.Whole (lastOf 4000 s.buf)
      | .credentials => s.account.credentials ≠ none → s.shows = []
      | .oauthToken => s.account.oauthToken ≠ none → s.shows = []
      | .last => s.Whole s.buf ∧ (tokens s.buf = [] → s.shows = [])
      | _ => True
  | _ => True

/-- No answer is given, and the account has no file but those of earlier flows. -/
structure Waiting (s : State) : Prop where
  open_ : ¬ Answered s
  earlier : ∀ name f, s.account.get name = some f → ∃ t, f = .earlier t

variable {s : State} {b : Beat}

theorem Waiting.kept (h : Waiting s) : s.kept = none := by
  unfold State.kept
  split
  · next token hf =>
      obtain ⟨t, ht⟩ := h.earlier .oauthToken _ hf
      cases ht
  · rfl

theorem Waiting.of_eq {s' : State} (h : Waiting s) (hs' : ¬ Answered s') (haccount : s'.account = s.account) :
    Waiting s' := by
  refine ⟨hs', fun name f hf => h.earlier name f ?_⟩
  rw [← haccount]
  exact hf

/-- What the whole output comes to. -/
def State.offered (s : State) : Option String := (longest s.shows).map String.ofList

theorem offered_eq_none : s.offered = none ↔ s.shows = [] := by
  rw [State.offered, Option.map_eq_none_iff, longest_eq_none]

theorem shows_of_eq {s' : State} (hprinted : s'.printed = s.printed) (haccount : s'.account = s.account) :
    s'.shows = s.shows := by
  unfold State.shows
  rw [hprinted, haccount]

theorem same_of_undecided {fault : Option String} (h : Undecided s fault) : Same s (.go fault) := by
  have hwhole : ∀ {part : Bytes}, captureToken part = none → s.Whole part := fun hcap t ht => by
    rw [captureToken, token_eq_some.2 ht] at hcap
    cases hcap
  revert h
  unfold Undecided Same
  cases s.pc with
  | code => exact fun h hf => (hf h).elim
  | enter => exact fun h hf => (hf h).elim
  | look => exact fun h hlt => hwhole (h hlt)
  | credentials => exact fun h hne => (hne h).elim
  | oauthToken => exact fun h hne => (hne h).elim
  | last => exact fun h => h.elim
  | _ => exact fun _ => trivial

/-- A token that is found in a part of the output is what the whole output comes to just when it is not cut. -/
theorem offered_found {part : Bytes} {token : String} (h : captureToken part = some token) :
    some token = s.offered ↔ s.Whole part := by
  obtain ⟨t, ht, rfl⟩ := firstLongest_of_capture h
  rw [eq_comm, State.offered, token_eq_some, State.Whole, ht.forall_iff, firstLongest_iff]

/-- No answer yet, or an answer that leaves what the whole output comes to just when the same shows. -/
theorem Went.kept {s' : State} {fault : Option String} (h : Went s fault s') (hw : Waiting s) :
    (¬ Answered s' ∧ Same s (.go fault) ∧ s'.account = s.account ∧ s'.printed = s.printed) ∨
      Answered s' ∧ (s'.kept = s.offered ↔ Same s (.go fault)) := by
  have hnone : s.kept = s.offered ↔ s.shows = [] := by rw [hw.kept, eq_comm, offered_eq_none]
  cases h with
  | on hans haccount _ hprinted hun => exact .inl ⟨hans, same_of_undecided hun, haccount, hprinted⟩
  | closed hpc hfault =>
      have hsame : Same s (.go fault) ↔ s.shows = [] := by
        obtain hpc | hpc := hpc <;> simp [Same, hpc, hfault]
      exact .inr ⟨⟨_, rfl⟩, hnone.trans hsame.symm⟩
  | early hpc hlt hcap =>
      have hsame : Same s (.go fault) ↔ s.Whole (lastOf 4000 s.buf) := by simp [Same, hpc, hlt]
      exact .inr ⟨⟨_, rfl⟩, (offered_found hcap).trans hsame.symm⟩
  | file name hpc hf =>
      have hsame : Same s (.go fault) ↔ s.shows = [] := by
        cases name with
        | credentials =>
            have hne : s.account.credentials ≠ none := Option.ne_none_iff_exists'.2 ⟨_, hf⟩
            simp [Same, hpc, FileName.pc, hne]
        | oauthToken =>
            have hne : s.account.oauthToken ≠ none := Option.ne_none_iff_exists'.2 ⟨_, hf⟩
            simp [Same, hpc, FileName.pc, hne]
      exact .inr ⟨⟨_, rfl⟩, hnone.trans hsame.symm⟩
  | late hpc hcap =>
      have hsame : Same s (.go fault) ↔ s.Whole s.buf := by simp [Same, hpc, tokens_ne_nil hcap]
      exact .inr ⟨⟨_, rfl⟩, (offered_found hcap).trans hsame.symm⟩
  | without hpc hcap =>
      have hsame : Same s (.go fault) ↔ s.shows = [] := by
        have hnil := captureToken_eq_none.1 hcap
        simp [Same, hpc, hnil, State.Whole, FirstLongest]
      exact .inr ⟨⟨_, rfl⟩, hnone.trans hsame.symm⟩

theorem beat_kept (h : Waiting s) (b : Beat) :
    (¬ Answered (beat s b) ∧ Same s b ∧ (beat s b).account = s.account ∧ (beat s b).printed = s.printed) ∨
      Answered (beat s b) ∧ ((beat s b).kept = s.offered ↔ Same s b) := by
  rw [beat, step_of_not_answered h.open_]
  cases b with
  | go fault => exact (go_went h.open_ fault).kept h
  | tick d => exact .inl ⟨h.open_, trivial, rfl, rfl⟩
  | ends => exact .inl ⟨h.open_, trivial, rfl, rfl⟩
  | drain n =>
      refine .inl ⟨h.open_, trivial, rfl, ?_⟩
      simp [Beat.event, State.next, State.printed]

theorem exec_of_answered_beat (h : Answered s) (bs : List Beat) :
    Runs.exec beat s bs = s ∧ Runs.Meets beat Same s bs := by
  induction bs with
  | nil => exact ⟨rfl, trivial⟩
  | cons b bs ih =>
      have hsame : Same s b := by
        obtain ⟨r, hr⟩ := h
        cases b with
        | go fault => simp only [Same, hr]
        | _ => trivial
      rw [Runs.exec_cons, Runs.Meets, beat, step_of_answered h]
      exact ⟨ih.1, hsame, ih.2⟩

theorem exec_kept (h : Waiting s) (bs : List Beat) :
    (Answered (Runs.exec beat s bs) → (Runs.exec beat s bs).kept = s.offered) ↔ Runs.Meets beat Same s bs := by
  induction bs generalizing s with
  | nil => exact iff_of_true (fun hans => (h.open_ hans).elim) trivial
  | cons b bs ih =>
      rw [Runs.exec_cons, Runs.Meets]
      obtain ⟨hopen, hsame, haccount, hprinted⟩ | ⟨hans, hkept⟩ := beat_kept h b
      · have hoffered : (beat s b).offered = s.offered := by
          rw [State.offered, State.offered, shows_of_eq hprinted haccount]
        rw [← hoffered, ih (h.of_eq hopen haccount)]
        exact (and_iff_right hsame).symm
      · obtain ⟨hexec, hrest⟩ := exec_of_answered_beat hans bs
        rw [hexec, ← hkept]
        exact ⟨fun heq => ⟨heq hans, hrest⟩, fun hmeets _ => hmeets.1⟩

theorem waiting_submitted (now : Millis) (credentials oauthToken : Option String) (buf pending : Bytes) (done : Bool) :
    Waiting (submitted now credentials oauthToken buf pending done) := by
  refine ⟨by simp [Answered, submitted], fun name f hf => ?_⟩
  cases name <;>
  · obtain ⟨t, -, rfl⟩ := Option.map_eq_some_iff.1 hf
    exact ⟨t, rfl⟩

theorem offered_submitted (now : Millis) (credentials oauthToken : Option String) (whole : Bytes) (done : Bool) :
    (submitted now credentials oauthToken whole [] done).offered =
      match captureToken (lastOf 4000 whole) with
      | some token => some token
      | none => if credentials = none ∧ oauthToken = none then captureToken whole else none := by
  have hprinted : (submitted now credentials oauthToken whole [] done).printed = whole := List.append_nil _
  unfold State.offered State.shows captureToken
  rw [hprinted]
  cases tokens (lastOf 4000 whole) with
  | nil =>
      cases credentials <;> cases oauthToken <;> simp [submitted, longest]
  | cons t ts =>
      obtain ⟨u, hu, -⟩ := longest_cons t ts
      dsimp only
      rw [hu]
      rfl

theorem atOnce_kept (now : Millis) (credentials oauthToken : Option String) (whole : Bytes) :
    Answered (atOnce now credentials oauthToken whole) ∧ (atOnce now credentials oauthToken whole).kept =
      (submitted now credentials oauthToken whole [] true).offered := by
  rw [offered_submitted]
  have hlook : atOnce now credentials oauthToken whole = Runs.exec beat
      { submitted now credentials oauthToken whole [] true with
        deadline := now + 45000, lastEnter := now, pc := .look } (List.replicate 7 (.go none)) := rfl
  rw [hlook]
  have hnow : ¬ now + 45000 ≤ now := Nat.not_le.2 (Nat.lt_add_of_pos_right (by decide))
  cases hcap : captureToken (lastOf 4000 whole) with
  | some token =>
      simp [List.replicate, beat, step, Beat.event, State.next, State.go, submitted, hcap, hnow, State.store,
        storeToken, State.kept, Answered]
  | none =>
      cases credentials <;> cases oauthToken <;> cases herr : oauthError (lastOf 4000 whole) <;>
        cases hall : captureToken whole <;>
        simp [List.replicate, beat, step, Beat.event, State.next, State.go, submitted, hcap, hall, herr, hnow,
          State.store, storeToken, State.kept, Answered, State.answer]

/-! ## Cut output -/

/-- However the output comes in parts and whenever it is looked at, the URL of a flow is that of the whole output just
when what the loop stops at shows it, and the token stored for a code is that of the whole output just when no cut falls
where the answer is decided. -/
theorem chunks_iff (now : Millis) (polls : List Poll) (credentials oauthToken : Option String) (buf pending : Bytes)
    (done : Bool) (bs : List Beat) :
    (startFlow now polls = startFlow now [⟨now, .chunk (outputOf polls)⟩] ↔
      Settles (now + 30000) (outputOf polls) [] polls) ∧
    ((Answered (Runs.exec beat (submitted now credentials oauthToken buf pending done) bs) →
        (Runs.exec beat (submitted now credentials oauthToken buf pending done) bs).kept =
          (atOnce now credentials oauthToken (buf ++ pending)).kept) ↔
      Runs.Meets beat Same (submitted now credentials oauthToken buf pending done) bs) := by
  constructor
  · rw [startFlow_eq, readUrl_whole]
    exact readUrl_iff (now + 30000) [] polls
  · have hwaiting := waiting_submitted now credentials oauthToken buf pending done
    rw [← exec_kept hwaiting, (atOnce_kept now credentials oauthToken (buf ++ pending)).2]
    have hoffered : (submitted now credentials oauthToken (buf ++ pending) [] true).offered =
        (submitted now credentials oauthToken buf pending done).offered := by
      rw [State.offered, State.offered]
      refine congrArg (fun xs => (longest xs).map String.ofList) (shows_of_eq ?_ rfl)
      exact List.append_nil _
    rw [hoffered]

namespace Sample

/-- The state of the URL comes in two chunks. -/
def cutUrl : List Poll :=
  [⟨0, .chunk (ascii "https://claude.ai/oauth/authorize?state=ab")⟩, ⟨1, .chunk (ascii "cd\n")⟩]

end Sample

/-- The URL that is returned ends in the middle of its state. -/
theorem cut_state :
    (startFlow 0 Sample.cutUrl).toOption = some "https://claude.ai/oauth/authorize?state=ab".toList ∧
      startFlow 0 Sample.cutUrl ≠ startFlow 0 [⟨0, .chunk (outputOf Sample.cutUrl)⟩] := by
  refine ⟨by decide, fun h => ?_⟩
  have hshown := congrArg Except.toOption h
  revert hshown
  decide

end Sidecar
