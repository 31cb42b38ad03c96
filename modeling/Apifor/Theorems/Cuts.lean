import Apifor.Executor.Exec
import Mathlib.Algebra.GroupWithZero.Nat

/-!
# Cutting texts

The limits that the executor puts on files and responses are numbers of bytes: which texts they cut, and
which ones make it panic.
-/

namespace Executor

variable {n : Nat} {text t : String} {cs : List Char}

/-! ## One cut -/

/-- The text is no longer than the limit, or one of its characters ends there. -/
def Cuttable (n : Nat) (text : String) : Prop :=
  text.utf8ByteSize ≤ n ∨ ∃ pre suf, text = pre ++ suf ∧ pre.utf8ByteSize = n

/-- The bytes of some characters. -/
def size (cs : List Char) : Nat := (cs.map Char.utf8Size).sum

theorem utf8ByteSize_ofList (cs : List Char) : (String.ofList cs).utf8ByteSize = size cs := by
  induction cs with
  | nil => rfl
  | cons c cs ih => rw [String.ofList_cons, String.utf8ByteSize_append, String.utf8ByteSize_singleton, ih, size, size,
      List.map_cons, List.sum_cons]

theorem utf8ByteSize_eq (text : String) : text.utf8ByteSize = size text.toList := by
  rw [← utf8ByteSize_ofList, String.ofList_toList]

theorem cuttable_iff : Cuttable n text ↔ size text.toList ≤ n ∨ ∃ pre suf, text.toList = pre ++ suf ∧ size pre = n := by
  rw [Cuttable, utf8ByteSize_eq]
  refine or_congr_right ⟨?_, ?_⟩
  · rintro ⟨pre, suf, rfl, hpre⟩
    exact ⟨pre.toList, suf.toList, String.toList_append, utf8ByteSize_eq pre ▸ hpre⟩
  · rintro ⟨pre, suf, htext, hpre⟩
    refine ⟨String.ofList pre, String.ofList suf, ?_, utf8ByteSize_ofList pre ▸ hpre⟩
    rw [← String.ofList_append, ← htext, String.ofList_toList]

theorem truncateChars_isSome :
    (truncateChars n cs).isSome ↔ size cs ≤ n ∨ ∃ pre suf, cs = pre ++ suf ∧ size pre = n := by
  induction cs generalizing n with
  | nil =>
      rw [truncateChars]
      exact iff_of_true rfl (.inl (Nat.zero_le n))
  | cons c cs ih =>
      have hc : 0 < c.utf8Size := c.utf8Size_pos
      cases n with
      | zero =>
          rw [truncateChars]
          · exact iff_of_true rfl (.inr ⟨[], c :: cs, rfl, rfl⟩)
          · simp
      | succ n =>
          rw [truncateChars]
          · by_cases hle : c.utf8Size ≤ n + 1
            · rw [if_pos hle, Option.isSome_map, ih]
              refine or_congr ?_ ⟨?_, ?_⟩
              · rw [size, size, List.map_cons, List.sum_cons]
                omega
              · rintro ⟨pre, suf, rfl, hpre⟩
                refine ⟨c :: pre, suf, rfl, ?_⟩
                rw [size, List.map_cons, List.sum_cons, ← size, hpre]
                omega
              · rintro ⟨pre, suf, hcs, hpre⟩
                cases pre with
                | nil => cases hpre
                | cons c' pre =>
                    cases hcs
                    refine ⟨pre, suf, rfl, ?_⟩
                    rw [size, List.map_cons, List.sum_cons] at hpre
                    rw [size]
                    omega
            · rw [if_neg hle]
              refine iff_of_false (by simp) ?_
              rintro (hsize | ⟨pre, suf, hcs, hpre⟩)
              · rw [size, List.map_cons, List.sum_cons] at hsize
                omega
              · cases pre with
                | nil => cases hpre
                | cons c' pre =>
                    cases hcs
                    rw [size, List.map_cons, List.sum_cons] at hpre
                    omega
          · exact Nat.succ_ne_zero n

theorem truncate_isSome : (truncate n text).isSome ↔ Cuttable n text := by
  rw [truncate, Option.isSome_map, truncateChars_isSome, cuttable_iff]

theorem truncateChars_prefix {ds : List Char} (h : truncateChars n cs = some ds) : ds <+: cs ∧ size ds ≤ n := by
  induction cs generalizing n ds with
  | nil =>
      rw [truncateChars] at h
      cases h
      exact ⟨List.prefix_rfl, Nat.zero_le n⟩
  | cons c cs ih =>
      cases n with
      | zero =>
          rw [truncateChars] at h
          · cases h
            exact ⟨List.nil_prefix, Nat.le_refl 0⟩
          · simp
      | succ n =>
          rw [truncateChars] at h
          · split at h
            · next hle =>
                obtain ⟨es, hes, rfl⟩ := Option.map_eq_some_iff.1 h
                obtain ⟨hpre, hsize⟩ := ih hes
                refine ⟨List.cons_prefix_cons.2 ⟨rfl, hpre⟩, ?_⟩
                rw [size] at hsize ⊢
                rw [List.map_cons, List.sum_cons]
                omega
            · cases h
          · exact Nat.succ_ne_zero n

/-- A cut keeps the beginning of a text, no longer than the limit. -/
theorem truncate_prefix (h : truncate n text = some t) : t.toList <+: text.toList ∧ t.utf8ByteSize ≤ n := by
  obtain ⟨ds, hds, rfl⟩ := Option.map_eq_some_iff.1 h
  rw [String.toList_ofList, utf8ByteSize_ofList]
  exact truncateChars_prefix hds

/-! ## Texts that are cut -/

/-- A file, if it can be read, can be cut. -/
def Fits (n : Nat) (file : Option String) : Prop := ∀ text, file = some text → Cuttable n text

/-- A response, if it is an unsuccessful one, can be cut. -/
def FitsReply (n : Nat) (reply : Relay.Reply) : Prop :=
  ∀ status text, reply = .read status text → ¬ (200 ≤ status ∧ status < 300) → Cuttable n text

theorem fits_some : Fits n (some text) ↔ (truncate n text).isSome := by
  rw [truncate_isSome]
  exact ⟨fun h => h text rfl, fun h t ht => by cases ht; exact h⟩

theorem fits_none : Fits n none := fun _ h => nomatch h

namespace Relay

variable {fs : FileSystem} {workdir home : String}

theorem resolveRefs_isSome (refs : List String) :
    (resolveRefs fs workdir refs).isSome ↔
      ∀ r ∈ refs, containsText r ".." = false → Fits REF_CAP (fs.readToString (joinPath workdir r)) := by
  induction refs with
  | nil => exact iff_of_true rfl fun r hr => nomatch hr
  | cons r refs ih =>
      rw [List.forall_mem_cons, ← ih, resolveRefs]
      cases hdots : containsText r ".." with
      | true =>
          rw [if_pos rfl]
          exact ⟨fun h => ⟨fun hf => (nomatch hf), h⟩, fun h => h.2⟩
      | false =>
          rw [if_neg (by simp)]
          simp only [forall_true_left]
          cases hread : fs.readToString (joinPath workdir r) with
          | some text =>
              rw [fits_some]
              dsimp only [Option.bind_eq_bind]
              cases truncate REF_CAP text <;> cases resolveRefs fs workdir refs <;> simp
          | none =>
              dsimp only [Option.bind_eq_bind]
              cases resolveRefs fs workdir refs <;> simp [fits_none]

theorem kbTexts_isSome (entries : List DirEntry) :
    (kbTexts fs entries).isSome ↔ ∀ e ∈ entries, Fits 2000 (fs.readToString e.path) := by
  induction entries with
  | nil => exact iff_of_true rfl fun e he => nomatch he
  | cons e entries ih =>
      rw [List.forall_mem_cons, ← ih, kbTexts]
      cases hread : fs.readToString e.path with
      | some text =>
          rw [fits_some]
          dsimp only [Option.bind_eq_bind]
          cases truncate 2000 text <;> cases kbTexts fs entries <;> simp
      | none => simp [fits_none]

/-- The documents of the knowledge base that a plan reads. -/
def kbEntries (fs : FileSystem) (home : String) : List DirEntry :=
  ((fs.readDir (joinPath home "kb")).getD []).filterMap id |>.take 10

theorem localKb_isSome :
    (localKb fs home).isSome ↔ ∀ e ∈ kbEntries fs home, Fits 2000 (fs.readToString e.path) := by
  rw [localKb, kbEntries]
  cases fs.readDir (joinPath home "kb") with
  | none => exact iff_of_true rfl fun e he => nomatch he
  | some entries => exact kbTexts_isSome _

theorem callAnthropic_isSome {readers : Readers} {reply : Reply} {key template context : String} :
    (callAnthropic readers (fun _ => reply) key template context).isSome ↔ FitsReply 200 reply := by
  unfold callAnthropic
  cases reply with
  | unsent e => exact iff_of_true rfl fun _ _ h => nomatch h
  | unread e => exact iff_of_true rfl fun _ _ h => nomatch h
  | read status text =>
      dsimp only
      split
      · next hok =>
          refine iff_of_true ?_ fun _ _ h hnot => ?_
          · cases readers.anthropicResp text with
            | error e => rfl
            | ok parsed =>
                dsimp only
                cases readers.planJson (Text.trimSpace (Text.join "" parsed.content)) <;> rfl
          · cases h
            exact absurd hok hnot
      · next hbad =>
          rw [Option.isSome_map, truncate_isSome]
          exact ⟨fun h _ _ heq _ => by cases heq; exact h, fun h => h status text rfl hbad⟩

end Relay

namespace Exec

variable {c : Crates} {σ : Type} {h : Host σ} {rd : Readers} {reply : Relay.Reply} {fs : FileSystem}

/-- The host has the files and gives the response, whatever it has done before. -/
structure Serves (h : Host σ) (fs : FileSystem) (reply : Relay.Reply) : Prop where
  files : ∀ p s, h.readToString p s = fs.readToString p
  reply : ∀ q s, (h.post q s).2 = reply

theorem isSome_run_bind {α β : Type} {p : Step c σ α} {k : α → Step c σ β} {d : Disk c σ} :
    ((p.bind k).run d).2.isSome ↔ ∃ a, (p.run d).2 = some a ∧ ((k a).run (p.run d).1).2.isSome := by
  rw [Prog.run_bind]
  cases (p.run d).2 <;> simp

theorem run_cut (d : Disk c σ) : (cut n text : Step c σ String).run d = (d, truncate n text) := by
  unfold cut
  cases truncate n text <;> rfl

theorem run_readToString (p : String) (d : Disk c σ) :
    (readToString h p).run d = ({ d with touched := p :: d.touched }, some (h.readToString p d.state)) := rfl

/-- The targets are read, unless one of them cannot be cut. -/
theorem targetContext_isSome (hs : Serves h fs reply) (repo : String) (files : List String) (d : Disk c σ) :
    ((targetContext h repo files).run d).2.isSome ↔
      ∀ f ∈ files, containsText f ".." = false → Fits 6000 (fs.readToString (joinPath repo f)) := by
  induction files generalizing d with
  | nil => exact iff_of_true rfl fun f hf => nomatch hf
  | cons f files ih =>
      rw [List.forall_mem_cons, targetContext]
      cases hdots : containsText f ".." with
      | true =>
          rw [if_pos rfl, ih]
          exact ⟨fun h => ⟨fun hf => (nomatch hf), h⟩, fun h => h.2⟩
      | false =>
          rw [if_neg (by simp), Prog.bind_def, Prog.run_bind_of_eq (run_readToString _ d), hs.files]
          simp only [forall_true_left]
          cases hread : fs.readToString (joinPath repo f) with
          | some text =>
              rw [fits_some]
              simp only [Prog.bind_def, Prog.pure_def]
              rw [isSome_run_bind, run_cut]
              constructor
              · rintro ⟨t, ht, hrest⟩
                obtain ⟨rest, hr, -⟩ := isSome_run_bind.1 hrest
                exact ⟨Option.isSome_of_eq_some ht, (ih _).1 (Option.isSome_of_eq_some hr)⟩
              · rintro ⟨ht, hfiles⟩
                obtain ⟨t, ht⟩ := Option.isSome_iff_exists.1 ht
                obtain ⟨rest, hr⟩ := Option.isSome_iff_exists.1 ((ih { d with touched := joinPath repo f :: d.touched }).2 hfiles)
                exact ⟨t, ht, isSome_run_bind.2 ⟨rest, hr, rfl⟩⟩
          | none =>
              rw [ih]
              exact ⟨fun h => ⟨fits_none, h⟩, fun h => h.2⟩

theorem body_isSome (rd : Readers) (d : Disk c σ) : ((body rd shown160 reply).run d).2.isSome ↔ FitsReply 160 reply := by
  unfold body
  cases reply with
  | unsent e => exact iff_of_true rfl fun _ _ h => nomatch h
  | unread e => exact iff_of_true rfl fun _ _ h => nomatch h
  | read status text =>
      dsimp only
      split
      · next hok =>
          refine iff_of_true rfl fun _ _ h hnot => ?_
          cases h
          exact absurd hok hnot
      · next hbad =>
          have hcut : ((shown160 text : Step c σ String).run d).2.isSome ↔ Cuttable 160 text := by
            rw [← truncate_isSome, shown160, Prog.bind_def, isSome_run_bind, run_cut]
            cases truncate 160 text <;> simp
          have hreply : FitsReply 160 (.read status text) ↔ Cuttable 160 text :=
            ⟨fun h => h status text rfl hbad, fun h _ _ heq _ => by cases heq; exact h⟩
          rw [hreply, ← hcut, Prog.bind_def, isSome_run_bind]
          constructor
          · rintro ⟨t, ht, -⟩
            exact Option.isSome_of_eq_some ht
          · intro ht
            obtain ⟨t, ht⟩ := Option.isSome_iff_exists.1 ht
            exact ⟨t, ht, rfl⟩

theorem applyEdits_isSome (repo : String) (edits : List FileEdit) (k : Nat) (d : Disk c σ) :
    ((applyEdits h repo edits k).run d).2.isSome := by
  induction edits generalizing k d with
  | nil => rfl
  | cons fe edits ih =>
      rw [applyEdits]
      split
      · exact ih k d
      · simp only [Prog.bind_def, Prog.run_bind, createParent, write, Prog.run_lift]
        split
        · exact ih _ _
        · rfl

theorem codeWithLLM_isSome (hs : Serves h fs reply) (key repo : String) (instr : Instr) (d : Disk c σ) :
    ((codeWithLLM h rd key repo instr).run d).2.isSome ↔
      (∀ f ∈ instr.targetFiles, containsText f ".." = false → Fits 6000 (fs.readToString (joinPath repo f))) ∧
        FitsReply 160 reply := by
  rw [← targetContext_isSome hs repo instr.targetFiles d, codeWithLLM, Prog.bind_def, isSome_run_bind]
  constructor
  · rintro ⟨ctx, hctx, hrest⟩
    obtain ⟨r, hr, hrest⟩ := isSome_run_bind.1 hrest
    cases hr
    obtain ⟨out, hout, -⟩ := isSome_run_bind.1 hrest
    refine ⟨Option.isSome_of_eq_some hctx, ?_⟩
    rw [hs.reply] at hout
    exact (body_isSome rd _).1 (Option.isSome_of_eq_some hout)
  · rintro ⟨hctx, hreply⟩
    obtain ⟨ctx, hctx⟩ := Option.isSome_iff_exists.1 hctx
    refine ⟨ctx, hctx, isSome_run_bind.2 ⟨_, rfl, ?_⟩⟩
    rw [Prog.bind_def, hs.reply]
    obtain ⟨out, hout⟩ := Option.isSome_iff_exists.1 ((body_isSome rd _).2 hreply)
    refine isSome_run_bind.2 ⟨out, hout, ?_⟩
    cases out with
    | error e => rfl
    | ok text =>
        dsimp only
        cases editsOf rd text with
        | error e => rfl
        | ok edits => exact applyEdits_isSome repo edits 0 _

/-- The response to a pull request is asked for with a token and a repository of GitHub. -/
def Asks (token : Option String) (instr : Instr) : Prop := token.isSome ∧ (parseGithub instr.repoURL).isSome

theorem openPR_isSome (hs : Serves h fs reply) (instr : Instr) (token : Option String) (d : Disk c σ) :
    ((openPR h rd instr token).run d).2.isSome ↔ (Asks token instr → FitsReply 160 reply) := by
  unfold openPR Asks
  cases token with
  | none => exact iff_of_true rfl fun h => nomatch h.1
  | some token =>
      cases parseGithub instr.repoURL with
      | none => exact iff_of_true rfl fun h => nomatch h.2
      | some at' =>
          simp only [Option.isSome_some, and_self, forall_true_left, Prog.bind_def]
          rw [isSome_run_bind]
          constructor
          · rintro ⟨r, hr, hrest⟩
            cases hr
            obtain ⟨out, hout, -⟩ := isSome_run_bind.1 hrest
            rw [hs.reply] at hout
            exact (body_isSome rd _).1 (Option.isSome_of_eq_some hout)
          · intro hreply
            refine ⟨_, rfl, ?_⟩
            rw [hs.reply]
            obtain ⟨out, hout⟩ := Option.isSome_iff_exists.1 ((body_isSome rd _).2 hreply)
            refine isSome_run_bind.2 ⟨out, hout, ?_⟩
            cases out <;> rfl

/-- A host on which nothing happens. -/
def quietHost (fs : FileSystem) (reply : Relay.Reply) : Host Unit where
  git _ _ s := (s, .exited true "" "")
  bash _ _ s := (s, .exited true "" "")
  post _ s := (s, reply)
  exists? _ _ := true
  removeDirAll _ s := s
  createDirAll _ s := (s, .ok ())
  createParent _ s := s
  readToString p _ := fs.readToString p
  write _ _ s := (s, .ok ())
  envVar _ := none
  debug _ := "[]"

theorem quietHost_serves (fs : FileSystem) (reply : Relay.Reply) : Serves (quietHost fs reply) fs reply :=
  ⟨fun _ _ => rfl, fun _ _ => rfl⟩

def quietReaders : Readers where
  statusText _ := ""
  instrError _ := ""
  contentTexts _ := .error ""
  filesJson _ := .error ""
  reviewJson _ := .error ""
  prURL _ := .error ""

end Exec

/-! ## All the limits -/

/-- The files, and the responses to a plan, to the coder and to a pull request. -/
structure Texts where
  fs : FileSystem
  planReply : Relay.Reply
  coderReply : Relay.Reply
  prReply : Relay.Reply

/-- What the executor is asked to do with them. -/
structure Work where
  home : String
  workdir : String
  refs : List String
  repo : String
  instr : Exec.Instr
  token : Option String

/-- Every function with a limit ends without a panic, and a limit leaves the beginning of a text. -/
structure Completes (x : Texts) (k : Work) : Prop where
  refs : (Relay.resolveRefs x.fs k.workdir k.refs).isSome
  kb : (Relay.localKb x.fs k.home).isSome
  plan : ∀ readers key template context,
    (Relay.callAnthropic readers (fun _ => x.planReply) key template context).isSome
  coder : ∀ (c : Crates) (σ : Type) (h : Exec.Host σ) (rd : Exec.Readers) (key : String) (d : Exec.Disk c σ),
    Exec.Serves h x.fs x.coderReply → ((Exec.codeWithLLM h rd key k.repo k.instr).run d).2.isSome
  pr : ∀ (c : Crates) (σ : Type) (h : Exec.Host σ) (rd : Exec.Readers) (d : Exec.Disk c σ),
    Exec.Serves h x.fs x.prReply → ((Exec.openPR h rd k.instr k.token).run d).2.isSome
  prefixes : ∀ n text t, truncate n text = some t → t.toList <+: text.toList ∧ t.utf8ByteSize ≤ n

/-- Every text that is cut can be cut where it is. -/
structure AllFit (x : Texts) (k : Work) : Prop where
  refs : ∀ r ∈ k.refs, containsText r ".." = false → Fits 6000 (x.fs.readToString (joinPath k.workdir r))
  kb : ∀ e ∈ Relay.kbEntries x.fs k.home, Fits 2000 (x.fs.readToString e.path)
  plan : FitsReply 200 x.planReply
  targets : ∀ f ∈ k.instr.targetFiles, containsText f ".." = false → Fits 6000 (x.fs.readToString (joinPath k.repo f))
  coder : FitsReply 160 x.coderReply
  pr : Exec.Asks k.token k.instr → FitsReply 160 x.prReply

/-- The limits never panic exactly if none of them falls inside a character. -/
theorem completes_iff (x : Texts) (k : Work) : Completes x k ↔ AllFit x k := by
  constructor
  · intro h
    have hcoder := (Exec.codeWithLLM_isSome (Exec.quietHost_serves x.fs x.coderReply) "" k.repo k.instr _).1
      (h.coder sample Unit _ Exec.quietReaders "" ⟨noFiles, (), []⟩ (Exec.quietHost_serves _ _))
    have hpr := (Exec.openPR_isSome (Exec.quietHost_serves x.fs x.prReply) k.instr k.token _).1
      (h.pr sample Unit _ Exec.quietReaders ⟨noFiles, (), []⟩ (Exec.quietHost_serves _ _))
    exact {
      refs := (Relay.resolveRefs_isSome _).1 h.refs
      kb := Relay.localKb_isSome.1 h.kb
      plan := Relay.callAnthropic_isSome.1 (h.plan ⟨fun _ => "", fun _ => .error "", fun _ => .error ""⟩ "" "" "")
      targets := hcoder.1
      coder := hcoder.2
      pr := hpr }
  · intro h
    exact {
      refs := (Relay.resolveRefs_isSome _).2 h.refs
      kb := Relay.localKb_isSome.2 h.kb
      plan := fun _ _ _ _ => Relay.callAnthropic_isSome.2 h.plan
      coder := fun _ _ _ _ key d hs => (Exec.codeWithLLM_isSome hs key k.repo k.instr d).2 ⟨h.targets, h.coder⟩
      pr := fun _ _ _ _ d hs => (Exec.openPR_isSome hs k.instr k.token d).2 h.pr
      prefixes := fun _ _ _ => truncate_prefix }

section Sample

/-- A limit in the middle of a letter of two bytes. -/
theorem truncateChars_accent (n : Nat) : truncateChars (n + 1) (List.replicate n 'a' ++ ['é']) = none := by
  induction n with
  | zero => rfl
  | succ n ih =>
      rw [List.replicate_succ, List.cons_append, truncateChars, if_pos (by simp [Char.utf8Size]),
        show n + 1 + 1 - Char.utf8Size 'a' = n + 1 from rfl, ih]
      · rfl
      · exact Nat.succ_ne_zero _

def accentAt (n : Nat) : String := String.ofList (List.replicate n 'a' ++ ['é'])

theorem completes_accent : ¬ ∀ (x : Texts) (k : Work), Completes x k := by
  intro h
  have hrefs := (h ⟨⟨fun _ => some (accentAt 5999), fun _ => none⟩, .unsent "", .unsent "", .unsent ""⟩
    ⟨"/var/lib/apifor", "/workspace", ["a.rs"], "", ⟨"", "", "", "", [], "", true⟩, none⟩).refs
  rw [Relay.resolveRefs_isSome] at hrefs
  have hcut := truncate_isSome.2 (hrefs "a.rs" (by simp) (by decide) _ rfl)
  rw [truncate, accentAt, String.toList_ofList, Relay.REF_CAP, truncateChars_accent 5999] at hcut
  cases hcut

end Sample

end Executor
