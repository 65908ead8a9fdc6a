/-
  The Newton system of the perturbed optimality conditions, in two formulations. The standard one
  is over `(Δx, Δy, Δλ)`:

      [ G   0  −Aᵀ ]
      [ A  −I   E  ]
      [ 0   Λ   Y  ]

  The augmented one is over `(Δx, Δλ)`, with `Δy` eliminated through the complementarity rows:

      [ G        −Aᵀ     ]
      [ A   diag(y/λ) + E ]

  The constant blocks are written once per problem together with a one in every place that depends
  on the iterate; an update then only overwrites places that exist.
-/
import CentralPath.Problem.Target
import CentralPath.Sparse.Product

namespace CentralPath.Newton

open Sparse (Assembly Entry Matrix Span Write)

/-- How the Newton system is set up. -/
inductive Formulation where
  | standard
  | augmented
  deriving Repr, DecidableEq

/-- The formulation that was asked for, which need not be one that can be solved. -/
inductive Choice where
  | standard
  | augmented
  /-- The normal equations, which cannot represent the perturbed system. -/
  | normal
  /-- A name that is no formulation. -/
  | other (name : String)
  deriving Repr, DecidableEq

/-- A Newton system of `n` unknowns and `m` constraints. Nothing stops a caller from asking for a
negative number of either; such a system has no rows of its own, and ranges that end at a negative
number count from the end. -/
structure System where
  formulation : Formulation
  n : Int
  m : Int
  deriving Repr, DecidableEq

/-- Sets up the system in the formulation asked for. -/
def System.create {α : Type} (choice : Choice) (n m : Int) : Except (Fault α) System :=
  match choice with
  | .standard => .ok ⟨.standard, n, m⟩
  | .augmented => .ok ⟨.augmented, n, m⟩
  | .normal => .error .normalFormulation
  | .other name => .error (.formulationUnknown name)

namespace System

/-- Dimension of the system. -/
def dim (s : System) : Int :=
  match s.formulation with
  | .standard => s.n + 2 * s.m
  | .augmented => s.n + s.m

/-- First index of the multipliers. -/
def multiplierOffset (s : System) : Int :=
  match s.formulation with
  | .standard => s.n + s.m
  | .augmented => s.n

/-- A one-line description. -/
def describe (s : System) : String :=
  let kind := match s.formulation with
    | .standard => "StandardKKTAssembler"
    | .augmented => "AugmentedKKTAssembler"
  s!"{kind}(n={s.n}, m={s.m})"

variable {α : Type} [Scalar α]

/-- A write over whatever is stored at a position. -/
def put (row col : Int) (v : α) : Write α := ⟨row, col, v, true⟩

/-- The writes of `G`. -/
def hessianWrites (G : List (Entry α)) : List (Write α) :=
  G.map fun e => put e.row e.col e.value

/-- The writes of `A` and of `−Aᵀ`. -/
def jacobianWrites (s : System) (A : List (Entry α)) : List (Write α) :=
  A.flatMap fun e =>
    [put e.col (s.multiplierOffset + e.row) (-e.value), put (s.n + e.row) e.col e.value]

/-- The writes of `E`. -/
def complianceWrites (s : System) (E : List (Entry α)) : List (Write α) :=
  E.map fun e => put (s.n + e.row) (s.multiplierOffset + e.col) e.value

/-- The writes that reserve the places which depend on the iterate, and of `−I`. -/
def placeholderWrites (s : System) : List (Write α) :=
  (List.range s.m.toNat).flatMap fun (j : Nat) =>
    match s.formulation with
    | .standard =>
      [put (s.n + j) (s.n + j) (-1), put (s.n + s.m + j) (s.n + j) 1,
        put (s.n + s.m + j) (s.n + s.m + j) 1]
    | .augmented => [put (s.n + j) (s.n + j) 1]

/-- All writes of the constant blocks and placeholders, in order. -/
def constantWrites (s : System) (G A : List (Entry α)) (E : Option (List (Entry α))) :
    List (Write α) :=
  hessianWrites G ++ s.jacobianWrites A ++ s.complianceWrites (E.getD []) ++ s.placeholderWrites

/-- The writes of `λ` and `y` into the complementarity rows, up to the first component that is
missing. -/
def complementarityWrites (s : System) (y lam : Array α) : List (Write α) :=
  (List.range (min s.m.toNat (min lam.size (y.size + 1)))).flatMap fun (j : Nat) =>
    put (s.n + s.m + j) (s.n + j) (lam.getD j 0) ::
      if j < y.size then [put (s.n + s.m + j) (s.n + s.m + j) (y.getD j 0)] else []

/-- The writes of a diagonal over the placeholders, as far as the vector reaches. -/
def diagonalWrites (s : System) (diag : Array α) : List (Write α) :=
  (List.range (min s.m.toNat diag.size)).map fun (j : Nat) => put (s.n + j) (s.n + j) (diag.getD j 0)

/-- What stops an update whose shortest vector has a given length. -/
def shortage? (s : System) (length : Nat) : Option (Fault α) :=
  if (length : Int) < s.m then some .componentMissing else none

/-- `y / λ + diag E`. -/
def slackRatios (y lam diagE : Array α) : Except (Fault α) (Array α) := do
  Vector.zip? (· + ·) (← Vector.zip? (· / ·) y lam) diagE

/-- The assembly that brings the system to an iterate `(y, λ)`; `diagE` is the diagonal of `E`. -/
def iterateAssembly (s : System) (y lam diagE : Array α) : Assembly α :=
  match s.formulation with
  | .standard =>
    ⟨s.complementarityWrites y lam, s.shortage? (min y.size lam.size)⟩
  | .augmented =>
    match slackRatios y lam diagE with
    | .error e => .refused e
    | .ok diag => ⟨s.diagonalWrites diag, s.shortage? diag.size⟩

/-- What a right-hand side aims at: the barrier value `σμ`, and the affine directions of `y` and `λ`
whose product is corrected for. -/
structure Aim (α : Type) where
  sigmaMu : α
  dyAffine : Option (Array α)
  dlamAffine : Option (Array α)

/-- The unperturbed system. -/
def Aim.affine : Aim α := ⟨0, none, none⟩

/-- The componentwise product of the affine directions, when both are given. -/
def Aim.secondOrder? (aim : Aim α) : Except (Fault α) (Option (Array α)) :=
  match aim.dyAffine, aim.dlamAffine with
  | some dy, some dlam => (Vector.zip? (· * ·) dy dlam).map some
  | _, _ => .ok none

/-- The right-hand side for residuals `rp` and `rd` at the iterate `(y, λ)`. -/
def rightHandSide (s : System) (rp rd y lam : Array α) (aim : Aim α) :
    Except (Fault α) (Array α) :=
  match s.formulation with
  | .standard => do
    let gap ← Vector.zip? (· * ·) y lam
    let corrected ← match ← aim.secondOrder? with
      | some product => Vector.zip? (· + ·) gap product
      | none => pure gap
    let rpd := corrected.map (· - aim.sigmaMu)
    pure (Vector.neg rd ++ Vector.neg rp ++ Vector.neg rpd)
  | .augmented => do
    let base ← Vector.zip? (· - ·) (Vector.neg rp) y
    let centred ←
      if aim.sigmaMu == 0 then pure base
      else Vector.zip? (· + ·) base (lam.map (aim.sigmaMu / ·))
    let tail ← match ← aim.secondOrder? with
      | some product => do Vector.zip? (· - ·) centred (← Vector.zip? (· / ·) product lam)
      | none => pure centred
    pure (Vector.neg rd ++ tail)

/-- `A v`, read from the assembled matrix. -/
def mulA (s : System) (kkt : Matrix α) (v : Array α) : Except (Fault α) (Array α) :=
  kkt.mulBlock v ⟨s.n, s.n + s.m⟩ ⟨0, s.n⟩ false

/-- `G v`, read from the assembled matrix. -/
def mulG (s : System) (kkt : Matrix α) (v : Array α) : Except (Fault α) (Array α) :=
  kkt.mulBlock v ⟨0, s.n⟩ ⟨0, s.n⟩ false

/-- `−Aᵀ v`, read from the assembled matrix. -/
def mulNegAT (s : System) (kkt : Matrix α) (v : Array α) : Except (Fault α) (Array α) :=
  kkt.mulBlock v ⟨0, s.n⟩ ⟨s.multiplierOffset, s.multiplierOffset + s.m⟩ false

/-- A direction in all three unknowns. -/
structure Direction (α : Type) where
  dx : Array α
  dy : Array α
  dlam : Array α

/-- Reads the direction off a solution of the system. In the augmented formulation `Δy` is
`A Δx + rp + E Δλ`. -/
def direction (s : System) (solution : Array α) (kkt : Matrix α) (rp : Array α)
    (E : Option (Matrix α)) : Except (Fault α) (Direction α) :=
  match s.formulation with
  | .standard =>
    .ok ⟨Vector.range solution 0 s.n, Vector.range solution s.n (s.n + s.m),
      Vector.range solution (s.n + s.m) solution.size⟩
  | .augmented => do
    let dx := Vector.range solution 0 s.n
    let dlam := Vector.range solution s.n solution.size
    let image ← s.mulA kkt dx
    let slack ← Vector.zip? (· + ·) image rp
    match E with
    | none => pure ⟨dx, slack, dlam⟩
    | some e => pure ⟨dx, ← Vector.addTo? slack (← e.mulVec dlam false), dlam⟩

end System

end CentralPath.Newton
