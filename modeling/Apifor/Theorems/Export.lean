import Apifor.Http.Settings

/-!
# The export of the audit trail

`GET /v1/audit/export` writes a line of bare column names and a line of quoted cells for each row. A
reader of RFC 4180 finds the six cells of every row as they were, but for an apostrophe before a formula.
-/

namespace Apifor

namespace API

/-- What a reader is to find for a value. -/
def neutral (s : String) : String := if isFormula s then "'" ++ s else s

theorem neutral_not_formula (s : String) : isFormula (neutral s) = false := by
  unfold neutral
  cases h : isFormula s with
  | true => simp [isFormula]
  | false => simpa using h

theorem spells_csvField (s : String) : Csv.Spells (csvField s) (neutral s) := Csv.spells_quote (neutral s)

theorem spells_csvColumns : List.Forall₂ Csv.Spells csvColumns csvColumns := by
  have hplain : ∀ c ∈ csvColumns, Csv.Plain c := by decide
  exact List.forall₂_same.2 fun c hc => Csv.spells_plain (hplain c hc)

/-- The cells of a row, as a reader is to find them. -/
def cellsOf (toChar : String → Time → String) (x : Val) : List String :=
  csvColumns.map fun col => neutral (cellOf toChar x col)

theorem spells_row (x : Val) :
    List.Forall₂ Csv.Spells (csvColumns.map fun col => csvField (cellOf toChar x col)) (cellsOf toChar x) := by
  unfold cellsOf
  rw [List.forall₂_map_left_iff, List.forall₂_map_right_iff]
  exact List.forall₂_same.2 fun col _ => spells_csvField (cellOf toChar x col)

/-- Rows of texts are rows of the trail: a reader is to find what the texts say. -/
theorem cellOf_texts (toChar : String → Time → String) (when' actorType actorID action targetType targetID : String) :
    csvColumns.map (cellOf toChar (.obj [("when", .str when'), ("actor_type", .str actorType), ("actor_id", .str actorID),
      ("action", .str action), ("target_type", .str targetType), ("target_id", .str targetID)])) =
      [when', actorType, actorID, action, targetType, targetID] := rfl

/-- The export reads back as the column names and, for each row, its six values, none of them a formula. -/
theorem export_reads (toChar : String → Time → String) (rows : List Val) :
    Csv.parse (csvText toChar rows) =
        some (csvColumns :: rows.map fun x => csvColumns.map fun col => neutral (cellOf toChar x col)) ∧
      csvColumns.length = 6 ∧ ∀ x col, isFormula (neutral (cellOf toChar x col)) = false := by
  refine ⟨?_, rfl, fun x col => neutral_not_formula _⟩
  have hlines : List.Forall₂ (List.Forall₂ Csv.Spells)
      (csvColumns :: rows.map fun x => csvColumns.map fun col => csvField (cellOf toChar x col))
      (csvColumns :: rows.map (cellsOf toChar)) := by
    refine .cons spells_csvColumns ?_
    rw [List.forall₂_map_left_iff, List.forall₂_map_right_iff]
    exact List.forall₂_same.2 fun x _ => spells_row x
  refine Eq.trans (congrArg Csv.parse ?_) (Csv.parse_lines hlines fun l hl => ?_)
  · simp [csvText, List.flatMap_map]
  · rcases List.mem_cons.1 hl with rfl | hl
    · decide
    · obtain ⟨x, -, rfl⟩ := List.mem_map.1 hl
      simp [csvColumns]

/-- The handler answers with the rows that the caller's org may see. -/
theorem run_auditExport (u : Caller) (h : can u.role "manage" = true) (rls : Bool) (w : World) :
    ((auditExport u).cmd rls).run w =
      (w, some ⟨200, .csv (DB.listAudit 1000 (select (withOrg rls u.orgID) w.db))⟩) := by
  have hview : ((OrgM.view (T := settings) (B := u.orgID) "ListAudit" fun _ v => .ok (DB.listAudit 1000 v)).cmd rls).run w =
      (w, some (.ok (DB.listAudit 1000 (select (withOrg rls u.orgID) w.db)))) :=
    run_query "ListAudit" (fun _ s => .ok (DB.listAudit 1000 (select (withOrg rls u.orgID) s))) w
  unfold auditExport guarded
  rw [if_pos h]
  exact Prog.run_bind_of_eq hview

end API

end Apifor
