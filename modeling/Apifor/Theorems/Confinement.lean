import Apifor.Theorems.Cuts

/-!
# Where the executor reads and writes

The paths that come from the brain and from a model, joined to the directory that they are meant for.
-/

namespace Executor

variable {dir p workdir repo : String} {refs : List String}

/-! ## Joined paths -/

/-- A path that the guard skips, that is relative, or that names the directory itself. -/
def Stays (dir p : String) : Prop :=
  containsText p ".." = true ∨ Path.isAbsolute p = false ∨ Path.Under dir p

theorem joinPath_of_isAbsolute (h : Path.isAbsolute p = true) : joinPath dir p = p := if_pos h

theorem dots_notMem_names (h : containsText p ".." = false) : ['.', '.'] ∉ Path.names p := by
  refine Path.dots_notMem fun hin => ?_
  have hdots : containsText p ".." = true := containsText_iff.2 (by simpa using hin)
  rw [h] at hdots
  cases hdots

theorem under_joinPath (h : Stays dir p) (hdots : containsText p ".." = false) : Path.Under dir (joinPath dir p) := by
  cases habs : Path.isAbsolute p with
  | false => exact ⟨isAbsolute_joinPath habs, Path.names p, names_joinPath habs, dots_notMem_names hdots⟩
  | true =>
      rw [joinPath_of_isAbsolute habs]
      rcases h with h | h | h
      · rw [hdots] at h
        cases h
      · rw [habs] at h
        cases h
      · exact h

theorem stays_of_under (h : Path.Under dir (joinPath dir p)) : Stays dir p := by
  cases habs : Path.isAbsolute p with
  | false => exact .inr (.inl habs)
  | true =>
      rw [joinPath_of_isAbsolute habs] at h
      exact .inr (.inr h)

/-! ## Refs -/

namespace Relay

/-- What the refs give depends only on the files under the workdir. -/
def ReadsUnder (workdir : String) (refs : List String) : Prop :=
  ∀ fs fs' : FileSystem, (∀ p, Path.Under workdir p → fs.readToString p = fs'.readToString p) →
    resolveRefs fs workdir refs = resolveRefs fs' workdir refs

theorem readsUnder_of_stays (h : ∀ r ∈ refs, Stays workdir r) : ReadsUnder workdir refs := by
  intro fs fs' hsame
  induction refs with
  | nil => rfl
  | cons r refs ih =>
      rw [List.forall_mem_cons] at h
      rw [resolveRefs, resolveRefs, ih h.2]
      cases hdots : containsText r ".." with
      | true => rfl
      | false => rw [hsame _ (under_joinPath h.1 hdots)]

/-- Files of which one is there, and is empty. -/
def onlyFile (p : String) : FileSystem where
  readToString q := if q = p then some "" else none
  readDir _ := none

theorem onlyFile_read {q text : String} (h : (onlyFile p).readToString q = some text) : text = "" := by
  have hif : (if q = p then some "" else none) = some text := h
  split at hif
  · exact (Option.some.inj hif).symm
  · cases hif

theorem resolveRefs_noFiles (workdir : String) (refs : List String) :
    ∃ ctx, resolveRefs ⟨fun _ => none, fun _ => none⟩ workdir refs = some (ctx, []) := by
  induction refs with
  | nil => exact ⟨_, rfl⟩
  | cons r refs ih =>
      obtain ⟨ctx, hctx⟩ := ih
      rw [resolveRefs]
      split
      · exact ⟨ctx, hctx⟩
      · rw [hctx]
        exact ⟨_, rfl⟩

theorem resolveRefs_onlyFile (workdir : String) {r : String} (hr : r ∈ refs) (hdots : containsText r ".." = false) :
    ∃ ctx found, resolveRefs (onlyFile (joinPath workdir r)) workdir refs = some (ctx, found) ∧ r ∈ found := by
  induction refs with
  | nil => cases hr
  | cons q refs ih =>
      have hfits : (resolveRefs (onlyFile (joinPath workdir r)) workdir refs).isSome := by
        refine (resolveRefs_isSome refs).2 fun q _ _ text htext => ?_
        rw [onlyFile_read htext]
        exact .inl (Nat.zero_le _)
      obtain ⟨⟨ctx', found'⟩, hrest⟩ := Option.isSome_iff_exists.1 hfits
      rw [resolveRefs]
      rcases List.mem_cons.1 hr with rfl | hr
      · have hread : (onlyFile (joinPath workdir r)).readToString (joinPath workdir r) = some "" := if_pos rfl
        have hcut : truncate REF_CAP "" = some "" := rfl
        rw [if_neg (by simp [hdots]), hread]
        dsimp only [Option.bind_eq_bind]
        rw [hcut, hrest]
        exact ⟨_, _, rfl, List.mem_cons_self⟩
      · obtain ⟨ctx, found, hfound, hmem⟩ := ih hr
        split
        · exact ⟨ctx, found, hfound, hmem⟩
        · rw [hfound]
          cases hq : (onlyFile (joinPath workdir r)).readToString (joinPath workdir q) with
          | none => exact ⟨_, _, rfl, hmem⟩
          | some text =>
              rw [onlyFile_read hq]
              exact ⟨_, _, rfl, List.mem_cons_of_mem _ hmem⟩

/-- The refs are read under the workdir exactly if each of them stays there. -/
theorem readsUnder_iff : ReadsUnder workdir refs ↔ ∀ r ∈ refs, Stays workdir r := by
  refine ⟨fun h r hr => ?_, readsUnder_of_stays⟩
  by_contra hout
  have hdots : containsText r ".." = false := by
    by_contra hd
    exact hout (.inl (by simpa using hd))
  obtain ⟨ctx, hnone⟩ := resolveRefs_noFiles workdir refs
  obtain ⟨ctx', found, honly, hmem⟩ := resolveRefs_onlyFile workdir hr hdots
  have hsame := h ⟨fun _ => none, fun _ => none⟩ (onlyFile (joinPath workdir r)) fun p hp => by
    refine (if_neg ?_).symm
    rintro rfl
    exact hout (stays_of_under hp)
  rw [hnone, honly] at hsame
  cases hsame
  cases hmem

end Relay

/-! ## The coder -/

namespace Exec

variable {c : Crates} {σ : Type} {h : Host σ} {rd : Readers} {d : Disk c σ}

/-- The program touches only files of `T`, whatever was touched before. -/
def Touches {α : Type} (T : String → Prop) (p : Step c σ α) : Prop :=
  ∀ d, ∃ l, (p.run d).1.touched = l ++ d.touched ∧ ∀ q ∈ l, T q

section Touches

variable {α β : Type} {T : String → Prop} {p : Step c σ α} {k : α → Step c σ β}

theorem Touches.none (h : ∀ d, (p.run d).1.touched = d.touched) : Touches T p := fun d => ⟨[], h d, fun _ hq => nomatch hq⟩

theorem Touches.pure (a : α) : Touches T (.done a : Step c σ α) := .none fun _ => rfl

theorem Touches.bind (hp : Touches T p) (hk : ∀ a, Touches T (k a)) : Touches T (p.bind k) := by
  intro d
  obtain ⟨l, hl, hT⟩ := hp d
  rw [Prog.run_bind]
  cases (p.run d).2 with
  | none => exact ⟨l, hl, hT⟩
  | some a =>
      obtain ⟨l', hl', hT'⟩ := hk a (p.run d).1
      refine ⟨l' ++ l, by rw [List.append_assoc, ← hl, ← hl'], fun q hq => ?_⟩
      exact (List.mem_append.1 hq).elim (hT' q) (hT q)

theorem Touches.readToString {q : String} (hq : T q) : Touches (c := c) T (readToString h q) := fun _ =>
  ⟨[q], rfl, by simpa using hq⟩

theorem Touches.write {q content : String} (hq : T q) : Touches (c := c) T (write h q content) := fun _ =>
  ⟨[q], rfl, by simpa using hq⟩

theorem Touches.cut (n : Nat) (text : String) : Touches (c := c) (σ := σ) T (cut n text) := by
  refine .none fun d => ?_
  rw [run_cut]

end Touches

theorem targetContext_touches {files : List String} (hf : ∀ f ∈ files, Stays repo f) :
    Touches (c := c) (Path.Under repo) (targetContext h repo files) := by
  induction files with
  | nil => exact .pure _
  | cons f files ih =>
      rw [List.forall_mem_cons] at hf
      rw [targetContext]
      cases hdots : containsText f ".." with
      | true => exact ih hf.2
      | false =>
          refine (Touches.readToString (under_joinPath hf.1 hdots)).bind fun text => ?_
          cases text with
          | none => exact ih hf.2
          | some text => exact (Touches.cut 6000 text).bind fun _ => (ih hf.2).bind fun _ => .pure _

theorem applyEdits_touches {edits : List FileEdit} (he : ∀ e ∈ edits, Stays repo e.path) (n : Nat) :
    Touches (c := c) (Path.Under repo) (applyEdits h repo edits n) := by
  induction edits generalizing n with
  | nil => exact .pure _
  | cons e edits ih =>
      rw [List.forall_mem_cons] at he
      rw [applyEdits]
      cases hdots : containsText e.path ".." with
      | true => exact ih he.2 n
      | false =>
          refine (Touches.none fun _ => rfl : Touches _ (createParent h _)).bind fun _ => ?_
          refine (Touches.write (under_joinPath he.1 hdots)).bind fun out => ?_
          cases out with
          | error err => exact .pure _
          | ok u => exact ih he.2 (n + 1)

/-- The response to every request holds these edits. -/
def Returns (h : Host σ) (rd : Readers) (edits : List FileEdit) : Prop :=
  ∀ q s, ∃ status text, (h.post q s).2 = .read status text ∧ (200 ≤ status ∧ status < 300) ∧
    editsOf rd text = .ok edits

theorem body_of_returns {edits : List FileEdit} (hr : Returns h rd edits) (q : Post) (s : σ) (d : Disk c σ) :
    ∃ text, (body rd shown160 (h.post q s).2).run d = (d, some (.ok text)) ∧ editsOf rd text = .ok edits := by
  obtain ⟨status, text, hpost, hok, hedits⟩ := hr q s
  refine ⟨text, ?_, hedits⟩
  rw [hpost, body, if_pos hok]
  rfl

theorem codeWithLLM_touches {edits : List FileEdit} {instr : Instr} (hr : Returns h rd edits)
    (hf : ∀ f ∈ instr.targetFiles, Stays repo f) (he : ∀ e ∈ edits, Stays repo e.path) (key : String) :
    Touches (c := c) (Path.Under repo) (codeWithLLM h rd key repo instr) := by
  refine (targetContext_touches hf).bind fun ctx d => ?_
  obtain ⟨text, hbody, hedits⟩ := body_of_returns hr (coderPost key instr ctx) d.state
    ({ d with state := (h.post (coderPost key instr ctx) d.state).1 } : Disk c σ)
  obtain ⟨l, hl, hT⟩ := applyEdits_touches (c := c) (h := h) he 0
    { d with state := (h.post (coderPost key instr ctx) d.state).1 }
  refine ⟨l, ?_, hT⟩
  rw [Prog.bind_def, post, Prog.run_bind_of_eq (Prog.run_lift ..), Prog.bind_def, Prog.run_bind_of_eq hbody]
  dsimp only
  rw [hedits]
  exact hl

/-- The coder touches only files under the repository, whatever machine it runs on. -/
def StaysIn (repo : String) (instr : Instr) (edits : List FileEdit) : Prop :=
  ∀ (c : Crates) (σ : Type) (h : Host σ) (rd : Readers) (key : String) (d : Disk c σ), Returns h rd edits →
    ∃ l, ((codeWithLLM h rd key repo instr).run d).1.touched = l ++ d.touched ∧ ∀ q ∈ l, Path.Under repo q

/-! ## What is touched -/

def unguarded (paths : List String) : List String := paths.filter fun p => !containsText p ".."

def touchedIn (repo : String) (paths : List String) : List String := ((unguarded paths).map (joinPath repo)).reverse

theorem mem_touchedIn {p : String} {paths : List String} (hp : p ∈ paths) (hdots : containsText p ".." = false) :
    joinPath repo p ∈ touchedIn repo paths :=
  List.mem_reverse.2 (List.mem_map_of_mem (List.mem_filter.2 ⟨hp, by simp [hdots]⟩))

theorem touchedIn_cons (repo p : String) (paths : List String) :
    touchedIn repo (p :: paths) =
      touchedIn repo paths ++ if containsText p ".." = true then [] else [joinPath repo p] := by
  unfold touchedIn unguarded
  cases hdots : containsText p ".." with
  | true => rw [List.filter_cons_of_neg (by simp [hdots]), if_pos rfl, List.append_nil]
  | false => rw [List.filter_cons_of_pos (by simp [hdots]), List.map_cons, List.reverse_cons, if_neg (by simp)]

def noFile : FileSystem := ⟨fun _ => none, fun _ => none⟩

theorem targetContext_quiet (reply : Relay.Reply) (files : List String) (d : Disk c Unit) :
    (targetContext (quietHost noFile reply) repo files).run d =
      ({ d with touched := touchedIn repo files ++ d.touched }, some "") := by
  induction files generalizing d with
  | nil => rfl
  | cons f files ih =>
      rw [targetContext, touchedIn_cons]
      split
      · rw [ih, List.append_nil]
      · rw [Prog.bind_def, Prog.run_bind_of_eq (run_readToString _ d)]
        exact (ih _).trans (by simp)

theorem applyEdits_quiet (reply : Relay.Reply) (edits : List FileEdit) (n : Nat) (d : Disk c Unit) :
    ((applyEdits (quietHost noFile reply) repo edits n).run d).1.touched =
      touchedIn repo (edits.map (·.path)) ++ d.touched := by
  induction edits generalizing n d with
  | nil => rfl
  | cons e edits ih =>
      rw [applyEdits, List.map_cons, touchedIn_cons]
      split
      · rw [ih, List.append_nil]
      · simp only [Prog.bind_def, Prog.run_bind, createParent, write, Prog.run_lift]
        exact (ih _ _).trans (by simp)

/-- Readers that find the same edits in every response. -/
def sameEdits (edits : List FileEdit) : Readers where
  statusText _ := ""
  instrError _ := ""
  contentTexts _ := .ok []
  filesJson _ := .ok edits
  reviewJson _ := .error ""
  prURL _ := .error ""

theorem returns_sameEdits (edits : List FileEdit) : Returns (quietHost noFile (.read 200 "")) (sameEdits edits) edits :=
  fun _ _ => ⟨200, "", rfl, by decide, rfl⟩

theorem codeWithLLM_quiet (key : String) (instr : Instr) (edits : List FileEdit) (d : Disk c Unit) :
    ((codeWithLLM (quietHost noFile (.read 200 "")) (sameEdits edits) key repo instr).run d).1.touched =
      touchedIn repo (edits.map (·.path)) ++ (touchedIn repo instr.targetFiles ++ d.touched) := by
  rw [codeWithLLM, Prog.bind_def, Prog.run_bind_of_eq (targetContext_quiet _ _ d)]
  exact applyEdits_quiet _ edits 0 _

theorem staysIn_iff {instr : Instr} {edits : List FileEdit} :
    StaysIn repo instr edits ↔ (∀ f ∈ instr.targetFiles, Stays repo f) ∧ ∀ e ∈ edits, Stays repo e.path := by
  constructor
  · intro hin
    obtain ⟨l, hl, hunder⟩ := hin sample Unit _ (sameEdits edits) "" ⟨noFiles, (), []⟩ (returns_sameEdits edits)
    rw [codeWithLLM_quiet, List.append_nil, List.append_nil] at hl
    have hstays : ∀ p ∈ edits.map (·.path) ++ instr.targetFiles, Stays repo p := by
      intro p hp
      by_cases hdots : containsText p ".." = true
      · exact .inl hdots
      · have hdots : containsText p ".." = false := by simpa using hdots
        refine stays_of_under (hunder _ (hl ▸ List.mem_append.2 ?_))
        exact (List.mem_append.1 hp).imp (mem_touchedIn · hdots) (mem_touchedIn · hdots)
    exact ⟨fun f hf => hstays f (List.mem_append_right _ hf),
      fun e he => hstays e.path (List.mem_append_left _ (List.mem_map_of_mem he))⟩
  · rintro ⟨hf, he⟩ c σ h rd key d hr
    exact codeWithLLM_touches hr hf he key d

end Exec

/-! ## Both -/

/-- Refs are read under the workdir, and target files and edits under the repository. -/
def Confined (workdir repo : String) (refs : List String) (instr : Exec.Instr) (edits : List Exec.FileEdit) : Prop :=
  Relay.ReadsUnder workdir refs ∧ Exec.StaysIn repo instr edits

/-- The executor is confined exactly if no path that it accepts is an absolute one of another directory. -/
theorem confined_iff (workdir repo : String) (refs : List String) (instr : Exec.Instr) (edits : List Exec.FileEdit) :
    Confined workdir repo refs instr edits ↔
      (∀ r ∈ refs, Stays workdir r) ∧ (∀ f ∈ instr.targetFiles, Stays repo f) ∧ ∀ e ∈ edits, Stays repo e.path := by
  rw [Confined, Relay.readsUnder_iff, Exec.staysIn_iff]

/-- An edit of a file that an absolute path names. -/
theorem confined_absolute :
    ¬ ∀ (workdir repo : String) (refs : List String) (instr : Exec.Instr) (edits : List Exec.FileEdit),
      Confined workdir repo refs instr edits := by
  intro h
  have hin := (h "/workspace" "/var/lib/apifor/work/tsk_1/repo" [] ⟨"", "", "", "", [], "", true⟩
    [⟨"/root/.ssh/authorized_keys", "k"⟩]).2
  rw [Exec.staysIn_iff] at hin
  rcases hin.2 ⟨"/root/.ssh/authorized_keys", "k"⟩ (by simp) with hdots | hrel | hunder
  · exact absurd hdots (by decide)
  · exact absurd hrel (by decide)
  · obtain ⟨l, hl, -⟩ := hunder.names
    have hpath : Path.names "/root/.ssh/authorized_keys" = ["root".toList, ".ssh".toList, "authorized_keys".toList] := by
      decide
    have hrepo : Path.names "/var/lib/apifor/work/tsk_1/repo" = "var".toList ::
        ["lib".toList, "apifor".toList, "work".toList, "tsk_1".toList, "repo".toList] := by decide
    rw [hpath, hrepo] at hl
    exact absurd (List.cons.inj hl).1 (by decide)

end Executor
