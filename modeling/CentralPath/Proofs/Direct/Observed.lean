/-
  A watched direct solver. Setups and solves do the same with debug checks and without them, up to what
  is reported about the storage of the matrix.
-/
import CentralPath.Direct
import CentralPath.Proofs.Backend.Observed

namespace CentralPath.Direct

open Backend (Environment Quieter storageEvents_sublist)
open Backend.Work (shadows_change shadows_change_bind shadows_lift_bind shadows_report
  shadows_report_bind shadows_request shadows_solution shadows_solver_bind shadows_stopAt)
open Sparse (Assembly)

variable {σ α : Type} [Scalar α]

theorem shadows_learn (assembly : Assembly α) (dim : Int) :
    Shadows Quieter (learn assembly dim : Backend.Work (Solver α) σ α Unit) (learn assembly dim) := by
  unfold learn
  refine shadows_solver_bind fun s => shadows_lift_bind _ fun fresh => ?_
  refine (shadows_stopAt _).bind fun _ => shadows_lift_bind _ fun matrix => ?_
  exact shadows_change_bind (shadows_report (.refl _))

theorem shadows_clear (dim : Int) :
    Shadows Quieter (clear dim : Backend.Work (Solver α) σ α Unit) (clear dim) := by
  unfold clear
  exact shadows_solver_bind fun s => shadows_lift_bind _ fun matrix => shadows_change _

theorem shadows_fill (env : Environment σ α) (assembly : Assembly α) :
    Shadows Quieter (fill env.debug assembly : Backend.Work (Solver α) σ α Unit)
      (fill env.unwatched.debug assembly) := by
  unfold fill
  refine shadows_solver_bind fun s => shadows_change_bind (shadows_report_bind ?_)
  refine (shadows_stopAt _).bind fun _ => shadows_change_bind ?_
  exact shadows_report (storageEvents_sublist env _ _)

theorem shadows_assembleBy (env : Environment σ α) (assembly : Pass → Assembly α) (dim : Int) :
    Shadows Quieter (assembleBy env.debug assembly dim : Backend.Work (Solver α) σ α (List Pass))
      (assembleBy env.unwatched.debug assembly dim) := by
  unfold assembleBy
  refine shadows_change_bind (shadows_solver_bind fun s => .ite _ ?_ ?_)
  · refine (shadows_learn _ dim).bind fun _ => (shadows_fill env _).bind fun _ => ?_
    exact shadows_pure _
  · exact (shadows_clear dim).bind fun _ => (shadows_fill env _).bind fun _ => shadows_pure _

theorem shadows_setupBy (env : Environment σ α) (assembly : Pass → Assembly α) (dim : Int) :
    Shadows Quieter (setupBy env assembly dim) (setupBy env.unwatched assembly dim) := by
  unfold setupBy
  refine (shadows_assembleBy env assembly dim).bind fun passes => shadows_solver_bind fun s => ?_
  refine (shadows_request env _ _ _ _ _).bind fun _ => ?_
  exact shadows_change_bind (shadows_pure passes)

omit [Scalar α] in
theorem shadows_solve (env : Environment σ α) (rhs : Array α) :
    Shadows Quieter (solve env rhs) (solve env.unwatched rhs) := by
  unfold solve
  refine shadows_solver_bind fun s => ?_
  split_ifs
  · exact shadows_throw _
  · refine (shadows_request env _ _ _ _ _).bind fun _ => ?_
    exact shadows_change_bind (shadows_solution env)

end CentralPath.Direct
