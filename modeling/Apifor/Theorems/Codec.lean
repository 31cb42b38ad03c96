import Apifor.Executor.Exec
import Apifor.Grpc.Stream
import Apifor.Http.Tasks
import Apifor.Lib.FlatJson

/-!
# Steps and their results on the wire

The instructions that the brain encodes as the executor decodes them, and the results that the executor
encodes as the brain decodes them.
-/

namespace Apifor

open FlatJson (Flat objectText)
open Executor (Crates)
open Executor.Exec (Instr Host Readers)

/-! ## Instructions -/

namespace Server

def ExecInstructions.members (i : ExecInstructions) : List (String × Flat) :=
  [("repo_url", .str i.repoURL), ("base_branch", .str i.baseBranch), ("branch", .str i.branch),
    ("change_request", .str i.changeReq)] ++
  (if i.targetFiles.isEmpty then [] else [("target_files", .strs i.targetFiles)]) ++
  (if i.model = "" then [] else [("model", .str i.model)]) ++ [("open_pr", .bool i.openPR)]

theorem ExecInstructions.blob_eq (i : ExecInstructions) : i.blob = objectText Json.quote i.members := by
  have h1 : "\"repo_url\":" = Json.quote "repo_url" ++ ":" := by decide
  have h2 : "\"base_branch\":" = Json.quote "base_branch" ++ ":" := by decide
  have h3 : "\"branch\":" = Json.quote "branch" ++ ":" := by decide
  have h4 : "\"change_request\":" = Json.quote "change_request" ++ ":" := by decide
  have h5 : "\"target_files\":" = Json.quote "target_files" ++ ":" := by decide
  have h6 : "\"model\":" = Json.quote "model" ++ ":" := by decide
  have h7 : "\"open_pr\":" = Json.quote "open_pr" ++ ":" := by decide
  have hmap : ∀ (p : Prop) [Decidable p] (m : String × Flat),
      (if p then [] else [m]).map (FlatJson.memberText Json.quote) = if p then [] else [FlatJson.memberText Json.quote m] :=
    fun p _ m => by split <;> rfl
  unfold blob members objectText
  rw [h1, h2, h3, h4, h5, h6, h7, List.map_append, List.map_append, List.map_append, hmap, hmap]
  rfl

/-- The instructions as the executor decodes them. -/
def ExecInstructions.decoded (i : ExecInstructions) : Instr where
  repoURL := i.repoURL
  baseBranch := i.baseBranch
  branch := i.branch
  changeRequest := i.changeReq
  targetFiles := i.targetFiles
  model := i.model
  openPR := i.openPR

theorem asStrs_map (xs : List String) : Serde.asStrs (.arr (xs.map .str)) = some xs := by
  induction xs with
  | nil => rfl
  | cons x xs ih =>
      have hcons : Serde.asStrs (.arr ((x :: xs).map .str)) = (Serde.asStrs (.arr (xs.map .str))).map (x :: ·) := by
        simp only [Serde.asStrs, List.map_cons, List.mapM_cons, Serde.asStr]
        cases (xs.map Json.str).mapM Serde.asStr <;> rfl
      rw [hcons, ih]
      rfl

theorem fromStr_blob (i : ExecInstructions) : Instr.fromStr i.blob = some i.decoded := by
  have hparse : Serde.parse i.blob = some (.obj (FlatJson.members i.members)) := by
    rw [i.blob_eq]
    exact FlatJson.serde_parse_object _ FlatJson.quotes_json _ _
  rw [Instr.fromStr, hparse]
  have hof : Instr.ofMembers (FlatJson.members i.members) = some i.decoded := by
    unfold Instr.ofMembers ExecInstructions.members FlatJson.members
    obtain ⟨repoURL, baseBranch, branch, changeReq, targetFiles, model, openPR⟩ := i
    by_cases hfiles : targetFiles.isEmpty = true
    · obtain rfl := List.isEmpty_iff.1 hfiles
      by_cases hmodel : model = ""
      · subst hmodel
        rfl
      · simp only [if_neg hmodel]
        rfl
    · by_cases hmodel : model = ""
      · subst hmodel
        simp only [if_neg hfiles]
        show (Serde.asStrs (.arr (targetFiles.map .str))).bind (fun files =>
          some (⟨repoURL, baseBranch, branch, changeReq, files, "", openPR⟩ : Instr)) = _
        rw [asStrs_map]
        rfl
      · simp only [if_neg hfiles, if_neg hmodel]
        show (Serde.asStrs (.arr (targetFiles.map .str))).bind (fun files =>
          some (⟨repoURL, baseBranch, branch, changeReq, files, model, openPR⟩ : Instr)) = _
        rw [asStrs_map]
        rfl
  exact hof

end Server

/-! ## The two encoders of a merge -/

namespace API

def mergeMembers (tr : DB.TaskRepo) (taskID : Id) : List (String × Flat) :=
  [("base_branch", .str tr.defaultBranch), ("branch", .str ("apifor/" ++ taskID)), ("change_request", .str tr.prompt),
    ("repo_url", .str tr.cloneURL)]

theorem mergeBlob_eq (tr : DB.TaskRepo) (taskID : Id) :
    mergeBlob tr taskID = objectText Json.quote (mergeMembers tr taskID) := by
  have h1 : "\x7b\"base_branch\":" = "\x7b" ++ (Json.quote "base_branch" ++ ":") := by decide
  have h2 : ",\"branch\":" = "," ++ (Json.quote "branch" ++ ":") := by decide
  have h3 : ",\"change_request\":" = "," ++ (Json.quote "change_request" ++ ":") := by decide
  have h4 : ",\"repo_url\":" = "," ++ (Json.quote "repo_url" ++ ":") := by decide
  unfold mergeBlob mergeMembers objectText
  rw [h1, h2, h3, h4]
  simp only [List.map_cons, List.map_nil, Text.join, FlatJson.memberText, Flat.text, String.append_assoc]

/-- The instructions that `dispatchStep` encodes for a merge. -/
def mergeInstructions (tr : DB.TaskRepo) (taskID : Id) : Server.ExecInstructions :=
  { repoURL := tr.cloneURL, baseBranch := tr.defaultBranch, branch := "apifor/" ++ taskID, changeReq := tr.prompt }

/-- `dispatchMerge` leaves out `open_pr`, which the executor takes for true. -/
theorem fromStr_mergeBlob (tr : DB.TaskRepo) (taskID : Id) :
    Instr.fromStr (mergeBlob tr taskID) = some { (mergeInstructions tr taskID).decoded with openPR := true } := by
  have hparse : Serde.parse (mergeBlob tr taskID) = some (.obj (FlatJson.members (mergeMembers tr taskID))) := by
    rw [mergeBlob_eq]
    exact FlatJson.serde_parse_object _ FlatJson.quotes_json _ _
  rw [Instr.fromStr, hparse]
  rfl

end API

/-! ## Results -/

namespace Server

/-- A step's outcome as the brain knows it. -/
def resultOf : Executor.Exec.Outcome → StepResult
  | .exec branch url => { kind := "exec", branch := branch, url := url }
  | .test passed summary => { kind := "test", passed := passed, summary := summary }
  | .review approved comments => { kind := "review", approved := approved, comments := comments }
  | .merge url => { kind := "merge", merged := true, url := url }

def outcomeMembers : Executor.Exec.Outcome → List (String × Flat)
  | .exec branch url => [("branch", .str branch), ("kind", .str "exec"), ("url", .str url)]
  | .test passed summary => [("kind", .str "test"), ("passed", .bool passed), ("summary", .str summary)]
  | .review approved comments => [("approved", .bool approved), ("comments", .str comments), ("kind", .str "review")]
  | .merge url => [("kind", .str "merge"), ("merged", .bool true), ("url", .str url)]

theorem output_eq (out : Executor.Exec.Outcome) : out.output = objectText Serde.quote (outcomeMembers out) := by cases out <;> rfl

theorem trimChars_of_ends {p : Char → Bool} {x y : Char} (mid : List Char) (hx : p x = false) (hy : p y = false) :
    Text.trimChars p (x :: (mid ++ [y])) = x :: (mid ++ [y]) := by
  have hreverse : (x :: (mid ++ [y])).reverse = y :: (mid.reverse ++ [x]) := by simp
  rw [Text.trimChars, Text.trimLeft, if_neg (by simp [hx]), hreverse, Text.trimLeft, if_neg (by simp [hy]), ← hreverse,
    List.reverse_reverse]

theorem object_ends (ms : List (String × Flat)) :
    ∃ mid, (objectText Serde.quote ms).toList = '{' :: (mid ++ ['}']) :=
  ⟨(Text.join "," (ms.map (FlatJson.memberText Serde.quote))).toList, by
    rw [objectText, String.toList_append, String.toList_append]
    rfl⟩

theorem trimSpace_object (ms : List (String × Flat)) :
    Text.trimSpace (objectText Serde.quote ms) = objectText Serde.quote ms := by
  obtain ⟨mid, hmid⟩ := object_ends ms
  rw [Text.trimSpace, hmid, trimChars_of_ends mid (by decide) (by decide), ← hmid, String.ofList_toList]

theorem hasPrefix_object (ms : List (String × Flat)) : Text.hasPrefix (objectText Serde.quote ms) "\x7b" = true := by
  obtain ⟨mid, hmid⟩ := object_ends ms
  rw [Text.hasPrefix, hmid]
  rfl

theorem unmarshal_output (out : Executor.Exec.Outcome) : Json.unmarshal stepResultFields out.output {} = (resultOf out, true) := by
  have hparse : Json.parse out.output = some (.obj (FlatJson.members (outcomeMembers out))) := by
    rw [output_eq]
    cases out <;> exact FlatJson.json_parse_object _ FlatJson.quotes_serde _ _
  have hname : ∀ a ∈ stepResultFields.map (·.name), ∀ b ∈ stepResultFields.map (·.name), Json.sameName a b = decide (a = b) := by
    decide
  simp only [stepResultFields, Json.stringField, Json.boolField, List.map_cons, List.map_nil, List.forall_mem_cons] at hname
  rw [Json.unmarshal, hparse]
  cases out <;>
    simp [FlatJson.members, outcomeMembers, Json.toStruct, Json.setMembers, stepResultFields, Json.stringField,
      Json.boolField, hname, Flat.json, resultOf]

theorem parseResult_output (out : Executor.Exec.Outcome) : parseResult out.output = some (resultOf out) := by
  have hkind : (resultOf out).kind ≠ "" := by cases out <;> simp [resultOf]
  unfold parseResult
  rw [output_eq, trimSpace_object]
  dsimp only
  rw [if_pos (hasPrefix_object _), ← output_eq, unmarshal_output]
  exact if_pos ⟨rfl, hkind⟩

end Server

/-! ## The protocol -/

variable {c : Crates} {σ : Type}

theorem runMerge_congr {h : Host σ} {rd : Readers} {home task text text' : String} {instr instr' : Instr}
    (ht : Instr.fromStr text = some instr) (ht' : Instr.fromStr text' = some instr')
    (hm : ∀ repo, (Executor.Exec.merge h repo instr : Executor.Exec.Step c σ _) = Executor.Exec.merge h repo instr') :
    (Executor.Exec.runMerge h rd home task text : Executor.Exec.Step c σ _) = Executor.Exec.runMerge h rd home task text' := by
  simp only [Executor.Exec.runMerge, Executor.Exec.inRepo, ht, ht', hm]

/-- Whatever the brain encodes, the executor decodes; the two encoders of a merge make it do the same; and
every result that the executor encodes goes to `advancePipeline` as it is. -/
theorem codec :
    (∀ i : Server.ExecInstructions, Instr.fromStr i.blob = some i.decoded) ∧
      (∀ (tr : DB.TaskRepo) (taskID : Id),
        Instr.fromStr (API.mergeBlob tr taskID) = some { (API.mergeInstructions tr taskID).decoded with openPR := true } ∧
          ∀ (c : Crates) (σ : Type) (h : Host σ) (rd : Readers) (home : String),
            (Executor.Exec.runMerge h rd home taskID (API.mergeBlob tr taskID) : Executor.Exec.Step c σ _) =
              Executor.Exec.runMerge h rd home taskID (API.mergeInstructions tr taskID).blob) ∧
      ∀ (s : Server) (stepID taskID : Id) (out : Executor.Exec.Outcome),
        s.onStepCompleted { stepId := stepID, taskId := taskID, output := out.output } =
          s.advancePipeline taskID (Server.resultOf out) := by
  refine ⟨Server.fromStr_blob, fun tr taskID => ⟨API.fromStr_mergeBlob tr taskID, fun c σ h rd home => ?_⟩,
    fun s stepID taskID out => ?_⟩
  · exact runMerge_congr (API.fromStr_mergeBlob tr taskID) (Server.fromStr_blob _) fun _ => rfl
  · rw [Server.onStepCompleted, Server.parseResult_output]

end Apifor
