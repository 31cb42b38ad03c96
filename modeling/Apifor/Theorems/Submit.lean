import Apifor.Lemmas.Urls

/-!
# The answer to a code

`submit_code` takes any file of the account for the success of its own flow, and looks at the files no more once
its loop is over. Its answer is right in the runs in which the files of earlier flows are gone when it looks, the
token that it finds is not cut in what the CLI has printed by then, and nothing is left undrained or written when it
gives up.
-/

namespace Sidecar

variable {s : State} {es : List Event} {e : Event} {name : FileName} {f : File}

/-! ## Right answers -/

/-- All that the CLI has printed. -/
def State.printed (s : State) : Bytes := s.buf ++ s.pending

def Account.get (a : Account) : FileName → Option File
  | .credentials => a.credentials
  | .oauthToken => a.oauthToken

/-- A file was written in this flow; a stored token is the one that was printed. -/
def File.Own (printed : Bytes) : File → Prop
  | .earlier _ => False
  | .cli _ => True
  | .stored token => captureToken printed = some token

/-- Every file of the account is of this flow. -/
def State.Owned (s : State) : Prop := ∀ name f, s.account.get name = some f → f.Own s.printed

/-- The CLI has printed a token or written credentials. -/
def State.Produced (s : State) : Prop := captureToken s.printed ≠ none ∨ s.saved = true

/-- The answer is `ok` just when the CLI has produced something, and then that is what is on the disk. -/
def Right (s : State) : Prop :=
  match s.pc with
  | .answered .ok => s.Produced ∧ s.account ≠ {} ∧ s.Owned
  | .answered (.failed _) => ¬ s.Produced
  | _ => True

/-- A file of an earlier flow is left. -/
def State.Stale (s : State) : Prop := ∃ name t, s.account.get name = some (.earlier t)

/-- The token found in a part of the output is not cut in all that the CLI has printed. -/
def State.Uncut (s : State) (part : Bytes) : Prop := ∀ t, FirstLongest (tokens part) t → ¬ Cut (tokens s.printed) t

/-- What decides an answer is this flow's, and all of it: the flow closes before the CLI produces anything, a token is
found that is not cut, a file is found when none of an earlier flow is left, or at the end there is no token that was
not drained and no file that was written late. -/
def Sound (s : State) : Event → Prop
  | .go fault =>
      match s.pc with
      | .code | .enter => fault ≠ none → ¬ s.Produced
      | .look => s.now < s.deadline → s.Uncut (lastOf 4000 s.buf)
      | .credentials => s.account.credentials ≠ none → ¬ s.Stale
      | .oauthToken => s.account.oauthToken ≠ none → ¬ s.Stale
      | .last => s.Uncut s.buf ∧ (tokens s.buf = [] → tokens s.printed = [] ∧ s.saved = false)
      | _ => True
  | _ => True

/-! ## Tokens -/

theorem token_eq_some {xs : List (List Char)} {t : List Char} :
    (longest xs).map String.ofList = some (String.ofList t) ↔ FirstLongest xs t := by
  rw [← longest_iff, Option.map_eq_some_iff]
  exact ⟨fun ⟨u, hu, heq⟩ => String.ofList_injective heq ▸ hu, fun h => ⟨t, h, rfl⟩⟩

theorem firstLongest_of_capture {bs : Bytes} {token : String} (h : captureToken bs = some token) :
    ∃ t, FirstLongest (tokens bs) t ∧ token = String.ofList t := by
  obtain ⟨t, ht, rfl⟩ := Option.map_eq_some_iff.1 h
  exact ⟨t, longest_iff.1 ht, rfl⟩

theorem captureToken_eq_none {bs : Bytes} : captureToken bs = none ↔ tokens bs = [] := by
  rw [captureToken, Option.map_eq_none_iff, longest_eq_none]

theorem tokens_ne_nil {bs : Bytes} {token : String} (h : captureToken bs = some token) : tokens bs ≠ [] := by
  intro hnil
  rw [captureToken_eq_none.2 hnil] at h
  cases h

theorem not_produced : ¬ s.Produced ↔ tokens s.printed = [] ∧ s.saved = false := by
  rw [State.Produced, not_or, Classical.not_not, captureToken_eq_none, Bool.not_eq_true]

/-! ## Steps -/

def Answered (s : State) : Prop := ∃ r, s.pc = .answered r

/-- Before the answer nothing is stored, and the CLI has written what is not of an earlier flow. -/
def Inv (s : State) : Prop :=
  ∀ name f, s.account.get name = some f → (∃ t, f = .earlier t) ∨ (∃ t, f = .cli t) ∧ s.saved = true

theorem right_of_not_answered (h : ¬ Answered s) : Right s := by
  unfold Right
  split
  · next hpc => exact (h ⟨_, hpc⟩).elim
  · next hpc => exact (h ⟨_, hpc⟩).elim
  · trivial

theorem step_of_answered (h : Answered s) (e : Event) : step s e = s := by
  obtain ⟨r, hr⟩ := h
  simp only [step, hr]

theorem sound_of_answered (h : Answered s) (e : Event) : Sound s e := by
  obtain ⟨r, hr⟩ := h
  cases e with
  | go fault => simp only [Sound, hr]
  | _ => trivial

theorem step_of_not_answered (h : ¬ Answered s) (e : Event) : step s e = s.next e := by
  unfold step
  split
  · next r hr => exact (h ⟨r, hr⟩).elim
  · rfl

theorem owned_store (s : State) (token : String) :
    (s.store token).Owned ↔ captureToken s.printed = some token := by
  refine ⟨fun h => h .credentials _ rfl, fun h name f hf => ?_⟩
  cases name <;> cases hf <;> exact h

/-- A token that is stored is right just when it is the one that was printed. -/
theorem right_store (s : State) (token : String) : Right (s.store token) ↔ captureToken s.printed = some token := by
  refine ⟨fun h => (owned_store s token).1 h.2.2, fun h => ⟨.inl ?_, nofun, (owned_store s token).2 h⟩⟩
  exact fun hnone => nomatch h.symm.trans hnone

/-- A token that is found in a part of the output is right just when it is not cut. -/
theorem right_found {part : Bytes} {token : String} (h : captureToken part = some token) :
    Right (s.store token) ↔ s.Uncut part := by
  obtain ⟨t, ht, rfl⟩ := firstLongest_of_capture h
  rw [right_store, State.Uncut, ht.forall_iff, captureToken, token_eq_some, firstLongest_iff]

theorem uncut_of_none {part : Bytes} (h : captureToken part = none) : s.Uncut part := fun t ht => by
  rw [captureToken, token_eq_some.2 ht] at h
  cases h

theorem owned_iff (h : Inv s) : s.Owned ↔ ¬ s.Stale := by
  constructor
  · rintro howned ⟨name, t, hf⟩
    exact howned name _ hf
  · intro hfresh name f hf
    obtain ⟨t, rfl⟩ | ⟨⟨t, rfl⟩, -⟩ := h name f hf
    · exact hfresh ⟨name, t, hf⟩
    · trivial

/-- A file that is there makes the answer right just when none of an earlier flow is left. -/
theorem right_connected (h : Inv s) (name : FileName) (hf : s.account.get name = some f) :
    Right (s.answer .ok) ↔ ¬ s.Stale := by
  rw [← owned_iff h]
  refine ⟨fun hr => hr.2.2, fun howned => ⟨.inr ?_, fun hnil => ?_, howned⟩⟩
  · obtain ⟨t, rfl⟩ | ⟨-, hsaved⟩ := h name f hf
    · exact (howned name _ hf).elim
    · exact hsaved
  · rw [show s.account = {} from hnil] at hf
    cases name <;> cases hf

theorem Inv.of_eq {s' : State} (h : Inv s) (haccount : s'.account = s.account) (hsaved : s'.saved = s.saved) :
    Inv s' := by
  intro name f hf
  rw [haccount] at hf
  rw [hsaved]
  exact h name f hf

theorem get_put (a : Account) (file : Option File) (name name' : FileName) :
    (a.put file name).get name' = file ∨ (a.put file name).get name' = a.get name' := by
  cases name <;> cases name' <;> simp [Account.put, Account.get]

/-- What the CLI, the drain and the clock do. -/
theorem next_inv (h : Inv s) (hs : ¬ Answered s) (he : ∀ fault, e ≠ .go fault) :
    ¬ Answered (s.next e) ∧ Inv (s.next e) := by
  cases e with
  | tick d => exact ⟨hs, h⟩
  | prints bs => exact ⟨hs, h⟩
  | drain n => exact ⟨hs, h⟩
  | ends => exact ⟨hs, h⟩
  | saves name text =>
      refine ⟨hs, fun name' f hf => ?_⟩
      obtain hput | hput := get_put s.account (some (.cli text)) name name'
      · cases hput.symm.trans hf
        exact .inr ⟨⟨text, rfl⟩, rfl⟩
      · exact (h name' f (hput.symm.trans hf)).imp_right fun hcli => ⟨hcli.1, rfl⟩
  | removes name =>
      refine ⟨hs, fun name' f hf => ?_⟩
      obtain hput | hput := get_put s.account none name name'
      · cases hput.symm.trans hf
      · exact h name' f (hput.symm.trans hf)
  | go fault => exact (he fault rfl).elim

/-! ## A step of the code -/

/-- The step has nothing to answer by. -/
def Undecided (s : State) (fault : Option String) : Prop :=
  match s.pc with
  | .code | .enter => fault = none
  | .look => s.now < s.deadline → captureToken (lastOf 4000 s.buf) = none
  | .credentials => s.account.credentials = none
  | .oauthToken => s.account.oauthToken = none
  | .last | .answered _ => False
  | _ => True

/-- Where the loop looks for a file. -/
def FileName.pc : FileName → Pc
  | .credentials => .credentials
  | .oauthToken => .oauthToken

/-- What the step comes to: it goes on, with the files and the output as they are, or it answers, and by what. -/
inductive Went (s : State) (fault : Option String) : State → Prop
  | on {s' : State} (unanswered : ¬ Answered s') (account : s'.account = s.account) (saved : s'.saved = s.saved)
      (printed : s'.printed = s.printed) (undecided : Undecided s fault) : Went s fault s'
  | closed {e : String} (pc : s.pc = .code ∨ s.pc = .enter) (hfault : fault = some e) :
      Went s fault (s.answer (.failed (closedFlow e)))
  | early {token : String} (pc : s.pc = .look) (hlt : s.now < s.deadline)
      (hcap : captureToken (lastOf 4000 s.buf) = some token) : Went s fault (s.store token)
  | file {f : File} (name : FileName) (pc : s.pc = name.pc) (hf : s.account.get name = some f) :
      Went s fault (s.answer .ok)
  | late {token : String} (pc : s.pc = .last) (hcap : captureToken s.buf = some token) : Went s fault (s.store token)
  | without (pc : s.pc = .last) (hcap : captureToken s.buf = none) :
      Went s fault (s.answer (.failed (rejected s.buf s.errSeen)))

theorem go_went (hs : ¬ Answered s) (fault : Option String) : Went s fault (s.go fault) := by
  -- a step that goes on only moves on and notes what it has seen
  have hon : ∀ {s' : State}, (∀ r, s'.pc ≠ .answered r) → s'.account = s.account → s'.saved = s.saved →
      s'.printed = s.printed → Undecided s fault → Went s fault s' := by
    intro s' hpc haccount hsaved hprinted hun
    exact .on (fun ⟨r, hr⟩ => hpc r hr) haccount hsaved hprinted hun
  unfold State.go
  cases hpc : s.pc with
  | code =>
      cases fault with
      | none => apply hon <;> simp [Undecided, hpc, State.printed]
      | some e => exact .closed (.inl hpc) rfl
  | enter =>
      cases fault with
      | none => apply hon <;> simp [Undecided, hpc, State.printed]
      | some e => exact .closed (.inr hpc) rfl
  | begin => apply hon <;> simp [Undecided, hpc, State.printed]
  | look =>
      dsimp only
      split
      · next hlate =>
          have hlt := Nat.not_lt.2 hlate
          apply hon <;> simp [Undecided, hpc, State.printed, hlt]
      · next hlate =>
          cases hcap : captureToken (lastOf 4000 s.buf) with
          | none => apply hon <;> simp [Undecided, hpc, State.printed, hcap]
          | some token => exact .early hpc (Nat.lt_of_not_le hlate) hcap
  | credentials =>
      dsimp only
      cases hf : s.account.credentials with
      | none => apply hon <;> simp [Undecided, hpc, State.printed, hf]
      | some f => exact .file .credentials hpc hf
  | oauthToken =>
      dsimp only
      cases hf : s.account.oauthToken with
      | none => apply hon <;> simp [Undecided, hpc, State.printed, hf]
      | some f => exact .file .oauthToken hpc hf
  | judge =>
      dsimp only
      split
      · apply hon <;> simp [Undecided, hpc, State.printed]
      · split
        · cases fault with
          | none => apply hon <;> simp [Undecided, hpc, State.printed]
          | some e => apply hon <;> simp [Undecided, hpc, State.printed]
        · apply hon <;> simp [Undecided, hpc, State.printed]
  | wait =>
      dsimp only
      split
      · apply hon <;> simp [Undecided, hpc, State.printed]
      · apply hon <;> simp [Undecided, hpc, State.printed]
  | last =>
      dsimp only
      cases hcap : captureToken s.buf with
      | none => exact .without hpc hcap
      | some token => exact .late hpc hcap
  | answered r => exact (hs ⟨r, hpc⟩).elim

theorem sound_of_undecided {fault : Option String} (h : Undecided s fault) : Sound s (.go fault) := by
  revert h
  unfold Undecided Sound
  cases s.pc with
  | code => exact fun h hf => (hf h).elim
  | enter => exact fun h hf => (hf h).elim
  | look => exact fun h hlt => uncut_of_none (h hlt)
  | credentials => exact fun h hne => (hne h).elim
  | oauthToken => exact fun h hne => (hne h).elim
  | last => exact fun h => h.elim
  | _ => exact fun _ => trivial

/-- No answer yet, or an answer that is right just when what decides it is this flow's. -/
theorem Went.right {s' : State} {fault : Option String} (h : Went s fault s') (hinv : Inv s) :
    (¬ Answered s' ∧ Sound s (.go fault) ∧ Inv s') ∨ Answered s' ∧ (Right s' ↔ Sound s (.go fault)) := by
  cases h with
  | on hans haccount hsaved _ hun => exact .inl ⟨hans, sound_of_undecided hun, hinv.of_eq haccount hsaved⟩
  | closed hpc hfault =>
      have hsound : Sound s (.go fault) ↔ ¬ s.Produced := by
        obtain hpc | hpc := hpc <;> simp [Sound, hpc, hfault]
      exact .inr ⟨⟨_, rfl⟩, hsound.symm⟩
  | early hpc hlt hcap =>
      refine .inr ⟨⟨_, rfl⟩, ?_⟩
      rw [right_found hcap]
      simp [Sound, hpc, hlt]
  | file name hpc hf =>
      refine .inr ⟨⟨_, rfl⟩, ?_⟩
      rw [right_connected hinv name hf]
      cases name with
      | credentials =>
          have hne : s.account.credentials ≠ none := Option.ne_none_iff_exists'.2 ⟨_, hf⟩
          simp [Sound, hpc, FileName.pc, hne]
      | oauthToken =>
          have hne : s.account.oauthToken ≠ none := Option.ne_none_iff_exists'.2 ⟨_, hf⟩
          simp [Sound, hpc, FileName.pc, hne]
  | late hpc hcap =>
      refine .inr ⟨⟨_, rfl⟩, ?_⟩
      rw [right_found hcap]
      simp [Sound, hpc, tokens_ne_nil hcap]
  | without hpc hcap =>
      have hsound : Sound s (.go fault) ↔ ¬ s.Produced := by
        simp [Sound, hpc, uncut_of_none hcap, captureToken_eq_none.1 hcap, not_produced]
      exact .inr ⟨⟨_, rfl⟩, hsound.symm⟩

/-! ## Runs -/

/-- A step keeps the invariant, and answers rightly just when what decides it is this flow's. -/
theorem step_right (h : Inv s) (hs : ¬ Answered s) (e : Event) :
    (Right (step s e) ↔ Sound s e) ∧ (¬ Answered (step s e) → Inv (step s e)) := by
  rw [step_of_not_answered hs]
  have hquiet : (∀ fault, e ≠ .go fault) → Sound s e →
      (Right (s.next e) ↔ Sound s e) ∧ (¬ Answered (s.next e) → Inv (s.next e)) := fun he hsound => by
    obtain ⟨hans, hinv⟩ := next_inv h hs he
    exact ⟨iff_of_true (right_of_not_answered hans) hsound, fun _ => hinv⟩
  cases e with
  | go fault =>
      obtain ⟨hans, hsound, hinv⟩ | ⟨hans, hright⟩ := (go_went hs fault).right h
      · exact ⟨iff_of_true (right_of_not_answered hans) hsound, fun _ => hinv⟩
      · exact ⟨hright, fun hno => (hno hans).elim⟩
  | tick d => exact hquiet nofun trivial
  | prints bs => exact hquiet nofun trivial
  | saves name text => exact hquiet nofun trivial
  | removes name => exact hquiet nofun trivial
  | drain n => exact hquiet nofun trivial
  | ends => exact hquiet nofun trivial

theorem exec_of_answered (h : Answered s) (es : List Event) :
    Runs.exec step s es = s ∧ Runs.Meets step Sound s es := by
  induction es with
  | nil => exact ⟨rfl, trivial⟩
  | cons e es ih =>
      rw [Runs.exec_cons, Runs.Meets, step_of_answered h]
      exact ⟨ih.1, sound_of_answered h e, ih.2⟩

theorem exec_right (h : Inv s) (hs : ¬ Answered s) (es : List Event) :
    Right (Runs.exec step s es) ↔ Runs.Meets step Sound s es := by
  induction es generalizing s with
  | nil => exact iff_of_true (right_of_not_answered hs) trivial
  | cons e es ih =>
      obtain ⟨hright, hinv⟩ := step_right h hs e
      by_cases hans : Answered (step s e)
      · obtain ⟨hexec, hrest⟩ := exec_of_answered hans es
        rw [Runs.exec_cons, hexec, hright]
        exact ⟨fun hsound => ⟨hsound, hrest⟩, fun hmeets => hmeets.1⟩
      · rw [Runs.exec_cons, ih (hinv hans) hans]
        exact ⟨fun hrest => ⟨hright.1 (right_of_not_answered hans), hrest⟩, fun hmeets => hmeets.2⟩

/-- A code is submitted to a flow, over what earlier flows left of the account. -/
def submitted (now : Millis) (credentials oauthToken : Option String) (buf pending : Bytes) (done : Bool) : State :=
  { now := now, buf := buf, pending := pending, done := done,
    account := { credentials := credentials.map .earlier, oauthToken := oauthToken.map .earlier } }

/-- Whatever was on the disk and whatever the CLI does, the answer is right just when each thing that decides it is
of this flow, and all of it. -/
theorem answer_iff (now : Millis) (credentials oauthToken : Option String) (buf pending : Bytes) (done : Bool)
    (es : List Event) :
    Right (Runs.exec step (submitted now credentials oauthToken buf pending done) es) ↔
      Runs.Meets step Sound (submitted now credentials oauthToken buf pending done) es := by
  refine exec_right (fun name f hf => .inl ?_) (by simp [Answered, submitted]) es
  cases name <;>
  · obtain ⟨t, -, rfl⟩ := Option.map_eq_some_iff.1 hf
    exact ⟨t, rfl⟩

namespace Sample

/-- A code for an account that is connected already, while the CLI does nothing at all. -/
def reconnected : State := Runs.exec step (submitted 0 (some "old") none [] [] false) (List.replicate 5 (.go none))

end Sample

/-- The answer is `ok`, and the credentials are those of the earlier flow. -/
theorem stale_success : ¬ Right Sample.reconnected := by
  intro h
  have hpc : Sample.reconnected.pc = .answered .ok := by decide
  unfold Right at h
  rw [hpc] at h
  exact h.2.2 .credentials (.earlier "old") (by decide)

end Sidecar
