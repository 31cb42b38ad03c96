import Apifor.Lemmas.Steps

/-!
# What a dispatch pushes

Equations for the gate and the helpers of the pipeline, and the one envelope that `Hub.Send` may push: to the org
that it was called for, from the store as it is.
-/

namespace Apifor

variable {w w' w'' : World}

theorem Emits.mono {P Q : Push → Prop} (hpq : ∀ p, P p → Q p) (h : Emits P w w') : Emits Q w w' := by
  obtain ⟨l, hl, hp⟩ := h
  exact ⟨l, hl, fun p hm => hpq p (hp p hm)⟩

theorem Emits.refl {P : Push → Prop} (w : World) : Emits P w w := .of_eq rfl

theorem Emits.trans {P : Push → Prop} (h : Emits P w w') (h' : Emits P w' w'') : Emits P w w'' := by
  obtain ⟨l, hl, hp⟩ := h
  obtain ⟨l', hl', hp'⟩ := h'
  refine ⟨l' ++ l, by rw [hl', hl, List.append_assoc], fun p hm => ?_⟩
  rcases List.mem_append.1 hm with hm | hm
  · exact hp' p hm
  · exact hp p hm

/-- An envelope pushed from the store as it is. -/
structure PushedFrom (w : World) (org : Id) (env : Envelope) (p : Push) : Prop where
  org : p.org = org
  env : p.env = env
  db : p.db = w.db
  testsSkipped : p.testsSkipped = w.testsSkipped

theorem hubSend_emits (org : Id) (env : Envelope) (w : World) :
    Emits (PushedFrom w org env) w ((hubSend org env).run w).1 := by
  have hself : Emits (PushedFrom w org env) w w := Emits.refl w
  simp only [Apifor.hubSend, Prog.run_act]
  cases w.hub.byOrg org with
  | none => exact hself
  | some n =>
      simp only [Prog.run_act, World.trySend]
      split_ifs
      · exact hself
      · refine ⟨[_], rfl, fun p hp => ?_⟩
        rw [List.mem_singleton.1 hp]
        exact ⟨rfl, rfl, rfl, rfl⟩
      · exact hself

/-! ## The gate -/

namespace Server

def orgOf (s : Store) (task : Id) : Id :=
  match DB.taskRepo s task with
  | some tr => if tr.orgID = "" then demoOrgID else tr.orgID
  | none => demoOrgID

def repoOf (s : Store) (task : Id) : Id := ((DB.taskRepo s task).map (·.repoID)).getD ""

theorem run_taskOrg (task : Id) : (taskOrg task).run w = (w, some (orgOf w.db task)) := by
  simp only [taskOrg, Prog.bind_def, Prog.run_bind_of_eq (DB.run_getTaskRepo task), orgOf]
  cases DB.taskRepo w.db task <;> rfl

theorem run_taskRepoID (task : Id) : (taskRepoID task).run w = (w, some (repoOf w.db task)) := by
  simp only [taskRepoID, Prog.bind_def, Prog.run_bind_of_eq (DB.run_getTaskRepo task), repoOf]
  cases DB.taskRepo w.db task <;> rfl

/-- What `mergeGate` answers. -/
def gateOf (s : Server) (db : Store) (task : Id) : Bool :=
  ((DB.pinnedOf db (orgOf db task) (repoOf db task)).map fun cfg => !cfg.autoMerge).getD false ||
    (s.mergeRequireHuman && !DB.flagOf db (orgOf db task) (·.autoMerge))

theorem run_mergeGate (s : Server) (task : Id) : (s.mergeGate task).run w = (w, some (s.gateOf w.db task)) := by
  unfold mergeGate gateOf
  simp only [Prog.bind_def, Prog.run_bind_of_eq (run_taskOrg task), Prog.run_bind_of_eq (run_taskRepoID task)]
  simp only [Prog.run_bind, DB.run_pinnedWorkerForRepo]
  have hflag : (DB.poolAutoMerge (orgOf w.db task)).run w = (w, some (DB.flagOf w.db (orgOf w.db task) (·.autoMerge))) :=
    DB.run_poolFlag _ _
  cases DB.pinnedOf w.db (orgOf w.db task) (repoOf w.db task) with
  | none => cases s.mergeRequireHuman <;> simp [Prog.run_bind, hflag]
  | some cfg =>
      cases hauto : cfg.autoMerge with
      | false => simp [hauto]
      | true => cases s.mergeRequireHuman <;> simp [hauto, Prog.run_bind, hflag]

end Server

end Apifor
