import QueryCalculus.Formula.Prepared
import QueryCalculus.Schema
import QueryCalculus.Sql.Expr

/-!
# Formulas as SQL statements

- `Sql.Error` : why a formula has no statement
- `Sql.compile` : the statement that computes the answers of a formula
- `Sql.compileText` : its text

A *requested* variable must be an output column of the query for a formula. A *distinguished*
variable is provided by a query beside it and is referred to through the alias of that query. The
parts of a conjunction that can select what is requested of them are joined; the other parts become
conditions on the joined rows.

Parts of the formula are known by their positions: two equal atoms at different places are
different queries. The numbers that stand in the text are given out at the end.
-/

namespace QueryCalculus
namespace Sql

/-! ## Errors -/

/-- Faults of the compiler itself, which no formula brings about. -/
inductive Defect
  | selectableNotFree (f : Formula)
  | universal (f : Formula)
  | emptyConjunction (f : Formula)

def Defect.message : Defect → String
  | .selectableNotFree f => "the selectable variables of " ++ f.text ++ " are not free"
  | .universal f => "the universal quantifier " ++ f.text ++ " has not been eliminated"
  | .emptyConjunction f => "the conjunction " ++ f.text ++ " is empty"

inductive Error
  | noTable (query : Formula) (predicate : String)
  | arity (query : Formula) (atom : PredicateAtom) (table : Table)
  | unsafeVariables (query : Formula) (vars : VarSet)
  | unselectable (query : Formula) (vars : VarSet) (conjunction : Formula)
  | internal (defect : Defect)

def Error.message : Error → String
  | .noTable query predicate =>
    "Error with query:\n" ++ query.text ++ "\nNo SQL table has been associated to predicate " ++
      predicate ++ "."
  | .arity query atom table =>
    "Error with query:\n" ++ query.text ++ "\nAtom " ++ atom.text ++ " and table " ++ table.text ++
      " have different arities (respectively, " ++ toString atom.arity ++ " and " ++
      toString table.arity ++ ")."
  | .unsafeVariables query vars =>
    "Error with query:\n" ++ query.text ++
      "\nSome free variables can't be actually selected: " ++ vars.text ++
      "\nYou may need to add a quantifier for such variables. Please reformulate the query."
  | .unselectable query vars conjunction =>
    "Error with query:\n" ++ query.text ++ "\nImpossible to select or join variables " ++
      vars.text ++ " within conjunction " ++ conjunction.text ++
      "\nYou may need to rephrase such conjunction (maybe distributing it)."
  | .internal defect =>
    "Internal error while compiling into SQL: " ++ defect.message ++ ". This is likely a bug."

/-! ## What is asked of a query -/

/-- The way from the root to a part of a formula, last step first. -/
abbrev Position := List Nat

/-- The positions of the parts whose queries provide variables. The first entry decides. -/
abbrev Providers := List (Variable × Position)

def Providers.find? (p : Providers) (x : Variable) : Option Position :=
  (List.find? (fun entry => entry.1 == x) p).map Prod.snd

/-- Labels for the columns of the outermost statement. The first entry decides. -/
abbrev Labels := List (Variable × String)

/-- What stays the same during a compilation. -/
structure Context where
  schema : Schema
  query : Formula
  labels : Labels
  distinct : Bool

/-- What is asked of the query for a part of the formula: whether it is the whole statement, where
the part stands, which variables must be selected, and which queries beside it provide others. -/
structure Task where
  outermost : Bool
  position : Position
  requested : VarSet
  providers : Providers

namespace Task

/-- The task of the only part of a junction. -/
def single (t : Task) : Task :=
  { t with position := 0 :: t.position }

/-- The task of the body of a quantifier. Outside of it the bound names mean other variables. -/
def within (t : Task) (vars : VarSet) : Task :=
  { t with
    position := 0 :: t.position
    requested := t.requested.diff vars
    providers := t.providers.filter fun entry => !vars.contains entry.1 }

/-- The task of the joined part at the given place of a conjunction. -/
def join (t : Task) (wanted : VarSet) (part : Formula) (n : Nat) : Task :=
  ⟨false, n :: t.position, wanted.inter part.selectable, t.providers⟩

/-- The task of a part that becomes a condition: nothing is requested of it. -/
def condition (t : Task) (providers : Providers) (n : Nat) : Task :=
  ⟨false, n :: t.position, ∅, providers⟩

/-- The task of the part at the given place of a disjunction. -/
def alternative (t : Task) (n : Nat) : Task :=
  { t with outermost := false, position := n :: t.position }

end Task

/-! ## Statements -/

/-- The label of the column for a variable. -/
def Context.label (ctx : Context) (outermost : Bool) (x : Variable) : String :=
  match (ctx.labels.find? (·.1 == x)).map Prod.snd with
  | some label => if outermost && label ≠ "" then label else x.name
  | none => x.name

/-- The column that passes on the variable of a sub-query. -/
def Context.passedOn (ctx : Context) (outermost : Bool) (x : Variable) : Column :=
  let label := ctx.label outermost x
  ⟨x, x.name, if label = x.name then none else some label⟩

/-- A statement without columns asks whether there is any row: the outermost one looks for one row
only, and any other becomes an existence test. -/
def Context.select (ctx : Context) (outermost : Bool) (columns : List Column)
    (sources conditions : List (Expr Position)) : Expr Position :=
  let statement := Expr.select (ctx.distinct && outermost) (Column.sort columns) sources conditions
    (columns.isEmpty && outermost)
  if columns.isEmpty && !outermost then .exist statement else statement

/-- The statement for a condition if it is outermost, and the condition itself otherwise. -/
def Context.conditionOr (ctx : Context) (outermost : Bool) (condition : Expr Position) :
    Expr Position :=
  if outermost then ctx.select true [] [] [condition] else condition

/-! ## Atoms -/

def operand (providers : Providers) : Term → Operand Position
  | .var x =>
    match providers.find? x with
    | some position => .reference position x
    | none => .bare x
  | .const c => .constant c

def comparison (providers : Providers) (c : Comparison) : Expr Position :=
  .compare c.relation (operand providers c.left) (operand providers c.right)

/-- The table of an atom, with as many columns as the atom has terms. -/
def Context.tableFor (ctx : Context) (a : PredicateAtom) : Except Error Table :=
  match ctx.schema.table? a.predicate with
  | none => .error (.noTable ctx.query a.predicate)
  | some table =>
    if table.arity = a.arity then .ok table else .error (.arity ctx.query a table)

/-- What the terms of an atom contribute: output columns and conditions. -/
structure Scan where
  columns : List Column := []
  conditions : List (Expr Position) := []

/-- The output column for the first occurrence of a variable, if it is requested. -/
def Context.selected (ctx : Context) (task : Task) (x : Variable) (column : String) :
    List Column :=
  if task.requested.contains x then [⟨x, column, some (ctx.label task.outermost x)⟩] else []

/-- The condition that the first occurrence of a variable has the value provided by another query,
if there is one. -/
def Task.provided (task : Task) (x : Variable) (column : String) : List (Expr Position) :=
  match task.providers.find? x with
  | some provider =>
    if provider = task.position then [] else [.equate column (.reference provider x)]
  | none => []

/-- Reads the terms of an atom with their columns. The variables read before are given with their
first columns; a repeated variable equates two columns. -/
def Context.scan (ctx : Context) (task : Task) :
    List (Variable × String) → List (Term × String) → Scan
  | _, [] => {}
  | earlier, (.const c, column) :: rest =>
    let scan := ctx.scan task earlier rest
    { scan with conditions := .equate column (.constant c) :: scan.conditions }
  | earlier, (.var x, column) :: rest =>
    if x.isBlank then ctx.scan task earlier rest
    else
      match earlier.find? (·.1 == x) with
      | some occurrence =>
        let scan := ctx.scan task earlier rest
        { scan with conditions := .equate column (.column occurrence.2) :: scan.conditions }
      | none =>
        let scan := ctx.scan task ((x, column) :: earlier) rest
        { columns := ctx.selected task x column ++ scan.columns
          conditions := task.provided x column ++ scan.conditions }

/-- The use of a table is known by the position of its atom. -/
def Context.predicate (ctx : Context) (task : Task) (a : PredicateAtom) :
    Except Error (Expr Position) := do
  let table ← ctx.tableFor a
  let scan := ctx.scan task [] (a.terms.zip table.columns)
  return ctx.select task.outermost scan.columns [.table table.name task.position] scan.conditions

/-! ## The parts of a conjunction -/

/-- A part is joined, is a condition, or repeats an earlier part. -/
inductive Role
  | join
  | condition
  | repeated
  deriving DecidableEq, Repr

/-- A part is joined if something is requested of it and it can select all of that. -/
def roleOf (wanted : VarSet) (part : Formula) : Role :=
  let requested := part.free.inter wanted
  if requested.isEmpty || !requested.isSubset part.selectable then .condition else .join

def roles (wanted : VarSet) (seen : List Formula) : List Formula → List Role
  | [] => []
  | part :: parts =>
    (if seen.contains part then .repeated else roleOf wanted part) ::
      roles wanted (part :: seen) parts

/-- The parts with a role, each with its place. -/
def partsWith (role : Role) : Nat → List Role → List Formula → List (Formula × Nat)
  | n, r :: roles, part :: parts =>
    if r = role then (part, n) :: partsWith role (n + 1) roles parts
    else partsWith role (n + 1) roles parts
  | _, _, _ => []

namespace Task

/-- What the joined parts of a conjunction must select: the requested variables and the shared ones
that no query beside the conjunction provides. -/
def wanted (t : Task) (parts : List Formula) : VarSet :=
  let f := Formula.junction .and parts
  t.requested.union ((f.shared.inter f.selectable).filter fun x => (t.providers.find? x).isNone)

def roles (t : Task) (parts : List Formula) : List Role :=
  Sql.roles (t.wanted parts) [] parts

/-- The joined parts of a conjunction, each with its place. -/
def joined (t : Task) (parts : List Formula) : List (Formula × Nat) :=
  partsWith .join 0 (t.roles parts) parts

/-- The variables that no joined part of a conjunction can select. -/
def missing (t : Task) (parts : List Formula) : VarSet :=
  (t.wanted parts).diff
    (VarSet.ofList ((t.joined parts).flatMap fun entry => entry.1.free.toList))

/-- The providers for the conditions of a conjunction: those around it, then its joined parts. -/
def inner (t : Task) (parts : List Formula) : Providers :=
  t.providers ++ (t.joined parts).flatMap fun entry =>
    entry.1.free.toList.map fun x => (x, entry.2 :: t.position)

/-- Whether a conjunction has more than one condition. -/
def several (t : Task) (parts : List Formula) : Bool :=
  1 < (t.roles parts).count .condition

end Task

def layoutOf (part : Formula) : Layout :=
  if part.predicate?.isSome then .inline else .block

/-- Puts a junction beside other conditions into parentheses. -/
def amongConditions (several : Bool) (part : Formula) (condition : Expr Position) :
    Expr Position :=
  if several && part.connective?.isSome then .group [condition] else condition

/-- The statement of a conjunction from its joined queries and its conditions. -/
def Context.conjunction (ctx : Context) (task : Task) (parts : List Formula)
    (sources conditions : List (Expr Position)) : Except Error (Expr Position) :=
  let conditions := if conditions.isEmpty then [] else [Expr.group conditions]
  match sources, conditions with
  | [], [] => .error (.internal (.emptyConjunction (.junction .and parts)))
  | [], condition :: _ => .ok (ctx.conditionOr task.outermost condition)
  | sources, conditions =>
    .ok (ctx.select task.outermost (task.requested.toList.map (ctx.passedOn task.outermost))
      sources conditions)

/-- The statement of a disjunction from its alternatives. Without requested variables these are
conditions. A union is wrapped into one statement if it is outermost. -/
def Context.disjunction (ctx : Context) (task : Task) (alternatives : List (Expr Position)) :
    Expr Position :=
  if task.requested.isEmpty then ctx.conditionOr task.outermost (.any alternatives)
  else if task.outermost then
    ctx.select true (task.requested.toList.map (ctx.passedOn true))
      [.derived .block (.unionAll alternatives) task.position] []
  else .unionAll alternatives

/-! ## Formulas -/

mutual

/-- The statement of a part of the query, or its condition if nothing is requested. -/
def Context.formula (ctx : Context) (task : Task) : Formula → Except Error (Expr Position)
  | .atom (.truth b) => return ctx.conditionOr task.outermost (.truth b)
  | .atom (.comparison c) =>
    return ctx.conditionOr task.outermost (comparison task.providers c)
  | .atom (.predicate a) => ctx.predicate task a
  | .junction c [] => return ctx.conditionOr task.outermost (.truth c.unit)
  | .junction _ [part] => ctx.formula task.single part
  | .junction .and (part :: part' :: parts) => do
    if (task.missing (part :: part' :: parts)).isEmpty then
      let roles := task.roles (part :: part' :: parts)
      let sources ← ctx.joins task (task.wanted (part :: part' :: parts)) 0 roles
        (part :: part' :: parts)
      let conditions ← ctx.conditions task (task.inner (part :: part' :: parts))
        (task.several (part :: part' :: parts)) 0 roles (part :: part' :: parts)
      ctx.conjunction task (part :: part' :: parts) sources conditions
    else
      throw (.unselectable ctx.query (task.missing (part :: part' :: parts))
        (.junction .and (part :: part' :: parts)))
  | .junction .or (part :: part' :: parts) =>
    return ctx.disjunction task (← ctx.alternatives task 0 (part :: part' :: parts))
  | .neg (.atom (.comparison c)) =>
    return ctx.conditionOr task.outermost (comparison task.providers c.negated)
  | .neg (.neg body) =>
    return ctx.conditionOr task.outermost
      (← ctx.formula (task.single.condition task.providers 0) body)
  | .neg body => do
    let layout := if body.connective?.isSome then Layout.block else .inline
    return ctx.conditionOr task.outermost
      (.not layout (← ctx.formula (task.condition task.providers 0) body))
  | .quant .exist vars body => ctx.formula (task.within vars) body
  | .quant .forAll vars body => throw (.internal (.universal (.quant .forAll vars body)))

/-- The joined queries of a conjunction, each under its alias. -/
def Context.joins (ctx : Context) (task : Task) (wanted : VarSet) :
    Nat → List Role → List Formula → Except Error (List (Expr Position))
  | n, .join :: roles, part :: parts => do
    let query ← ctx.formula (task.join wanted part n) part
    return .derived (layoutOf part) query (n :: task.position) ::
      (← ctx.joins task wanted (n + 1) roles parts)
  | n, _ :: roles, _ :: parts => ctx.joins task wanted (n + 1) roles parts
  | _, _, _ => return []

/-- The conditions of a conjunction. -/
def Context.conditions (ctx : Context) (task : Task) (providers : Providers) (several : Bool) :
    Nat → List Role → List Formula → Except Error (List (Expr Position))
  | n, .condition :: roles, part :: parts => do
    let condition ← ctx.formula (task.condition providers n) part
    return amongConditions several part condition ::
      (← ctx.conditions task providers several (n + 1) roles parts)
  | n, _ :: roles, _ :: parts => ctx.conditions task providers several (n + 1) roles parts
  | _, _, _ => return []

/-- The queries of the parts of a disjunction. -/
def Context.alternatives (ctx : Context) (task : Task) :
    Nat → List Formula → Except Error (List (Expr Position))
  | n, part :: parts => do
    let query ← ctx.formula (task.alternative n) part
    return query :: (← ctx.alternatives task (n + 1) parts)
  | _, [] => return []

end

/-- The task of the whole formula: every free variable must be selected. -/
def rootTask (f : Formula) : Task :=
  ⟨true, [], f.free, []⟩

/-- The statement for a prepared formula. Every free variable must be selectable. -/
def compilePrepared (schema : Schema) (labels : Labels) (distinct : Bool) (f : Formula) :
    Except Error (Expr Nat) :=
  if !f.selectable.isSubset f.free then .error (.internal (.selectableNotFree f))
  else
    let lost := f.free.diff f.selectable
    if lost.isEmpty then
      (Context.formula ⟨schema, f, labels, distinct⟩ (rootTask f) f).map Expr.numbered
    else .error (.unsafeVariables f lost)

/-- The statement that selects the values of the free variables of a formula. The labels rename its
columns, and with `distinct` no row is repeated. -/
def compile (schema : Schema) (labels : Labels) (distinct : Bool) (f : Formula) :
    Except Error (Expr Nat) :=
  compilePrepared schema labels distinct f.prepared

def compileText (schema : Schema) (labels : Labels) (distinct : Bool) (f : Formula) :
    Except Error String :=
  (compile schema labels distinct f).map Expr.render

end Sql
end QueryCalculus
