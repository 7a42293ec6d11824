import Mathlib.Logic.Encodable.Basic
import Mathlib.Logic.Equiv.List
import Mathlib.Logic.Relation
import QueryCalculus.Sql.Compile

/-!
# The parts of SQL expressions

- `Expr.children`, `Expr.OccursIn`, `Expr.Throughout` : the expressions inside of an expression
- `Expr.header` : the columns of a query
- `Expr.branches` : the queries of a chain of unions
- `Expr.exists_numbering` : the numbers in a text tell all sub-queries apart
-/

namespace QueryCalculus
namespace Sql

/-- The name under which a column is known outside of its statement. -/
def Column.name (c : Column) : String :=
  c.label.getD c.source

variable {κ μ : Type}

namespace Expr

/-! ## Induction -/

/-- To show something of every expression, it may be assumed of the expressions right inside. -/
@[induction_eliminator]
theorem induction {P : Expr κ → Prop} (truth : ∀ value, P (.truth value))
    (compare : ∀ relation left right, P (.compare relation left right))
    (equate : ∀ column value, P (.equate column value))
    (any : ∀ alternatives, (∀ e ∈ alternatives, P e) → P (.any alternatives))
    (group : ∀ conditions, (∀ e ∈ conditions, P e) → P (.group conditions))
    (not : ∀ layout condition, P condition → P (.not layout condition))
    (exist : ∀ query, P query → P (.exist query))
    (table : ∀ name use, P (.table name use))
    (derived : ∀ layout query key, P query → P (.derived layout query key))
    (unionAll : ∀ branches, (∀ e ∈ branches, P e) → P (.unionAll branches))
    (select : ∀ distinct columns sources conditions limitOne, (∀ e ∈ sources, P e) →
      (∀ e ∈ conditions, P e) → P (.select distinct columns sources conditions limitOne))
    (e : Expr κ) : P e :=
  @Expr.rec κ P (fun es => ∀ e ∈ es, P e) truth compare equate any group not exist table derived
    unionAll select (fun _ h => absurd h List.not_mem_nil)
    (fun _ _ head tail => List.forall_mem_cons.2 ⟨head, tail⟩) e

/-! ## Expressions inside of expressions -/

def children : Expr κ → List (Expr κ)
  | .any es | .group es | .unionAll es => es
  | .not _ e | .exist e | .derived _ e _ => [e]
  | .select _ _ sources conditions _ => sources ++ conditions
  | _ => []

/-- An expression occurs in itself and in every expression that has a part in which it occurs. -/
def OccursIn (s e : Expr κ) : Prop :=
  Relation.ReflTransGen (fun a b => b ∈ a.children) e s

/-- The property holds of everything that occurs in the expression. -/
def Throughout (P : Expr κ → Prop) (e : Expr κ) : Prop :=
  ∀ s : Expr κ, s.OccursIn e → P s

theorem throughout_iff {P : Expr κ → Prop} {e : Expr κ} :
    e.Throughout P ↔ P e ∧ ∀ c ∈ e.children, c.Throughout P := by
  constructor
  · intro all
    refine ⟨all e .refl, ?_⟩
    intro c hc s inside
    exact all s (.head hc inside)
  · rintro ⟨here, below⟩ s inside
    -- it is the expression itself or occurs in one of its parts
    rcases Relation.ReflTransGen.cases_head inside with rfl | ⟨c, hc, rest⟩
    · exact here
    · exact below c hc s rest

theorem Throughout.self {P : Expr κ → Prop} {e : Expr κ} (h : e.Throughout P) : P e :=
  h e .refl

theorem Throughout.child {P : Expr κ → Prop} {e c : Expr κ} (h : e.Throughout P)
    (hc : c ∈ e.children) : c.Throughout P :=
  (throughout_iff.1 h).2 c hc

theorem throughout_leaf {P : Expr κ → Prop} {e : Expr κ} (children : e.children = []) (h : P e) :
    e.Throughout P := by
  rw [throughout_iff, children]
  simp [h]

mutual

/-- The columns of a query. Those of a union are the columns of its first branch. -/
def header : Expr κ → List Column
  | .select _ columns _ _ _ => columns
  | .derived _ query _ => query.header
  | .unionAll branches => headerOfFirst branches
  | _ => []

def headerOfFirst : List (Expr κ) → List Column
  | [] => []
  | e :: _ => e.header

end

mutual

/-- The queries of a chain of unions. The text of a union inside of a union continues the chain. -/
def branches : Expr κ → List (Expr κ)
  | .unionAll es => branchesAll es
  | e => [e]

def branchesAll : List (Expr κ) → List (Expr κ)
  | [] => []
  | e :: es => e.branches ++ branchesAll es

end

theorem branchesAll_eq_flatMap (es : List (Expr κ)) : branchesAll es = es.flatMap branches := by
  induction es with
  | nil => rfl
  | cons e es ih => simp [branchesAll, ih]

/-! ## Other keys -/

section Map

variable {query : κ → μ} {use : String → κ → μ}

theorem children_map (e : Expr κ) :
    (e.map query use).children = e.children.map (Expr.map query use) := by
  cases e <;> simp [Expr.map, children, mapAll_eq_map]

theorem header_map (e : Expr κ) : (e.map query use).header = e.header := by
  induction e with
  | derived layout body key ih => simpa [Expr.map, header] using ih
  | unionAll branches ih =>
    cases branches with
    | nil => rfl
    | cons e es => simpa [Expr.map, mapAll, header, headerOfFirst] using ih e (by simp)
  | _ => rfl

theorem branches_map (e : Expr κ) :
    (e.map query use).branches = e.branches.map (Expr.map query use) := by
  induction e with
  | unionAll es ih =>
    simp only [Expr.map, branches, mapAll_eq_map, branchesAll_eq_flatMap, List.flatMap_map,
      List.map_flatMap]
    exact List.flatMap_congr ih
  | _ => rfl

theorem occursIn_map_iff {s : Expr μ} {e : Expr κ} :
    s.OccursIn (e.map query use) ↔ ∃ s' : Expr κ, s'.OccursIn e ∧ s'.map query use = s := by
  constructor
  · intro inside
    induction inside with
    | refl => exact ⟨e, .refl, rfl⟩
    | tail _ last ih =>
      rcases ih with ⟨b, inside, rfl⟩
      rw [children_map] at last
      rcases List.mem_map.1 last with ⟨c, hc, rfl⟩
      exact ⟨c, inside.tail hc, rfl⟩
  · rintro ⟨s', inside, rfl⟩
    induction inside with
    | refl => exact .refl
    | tail _ last ih =>
      refine ih.tail ?_
      rw [children_map]
      exact List.mem_map_of_mem last

theorem throughout_map_iff {P : Expr μ → Prop} {e : Expr κ} :
    (e.map query use).Throughout P ↔ e.Throughout fun s => P (s.map query use) := by
  constructor
  · intro all s inside
    exact all _ (occursIn_map_iff.2 ⟨s, inside, rfl⟩)
  · intro all s inside
    rcases occursIn_map_iff.1 inside with ⟨s', inside', rfl⟩
    exact all s' inside'

theorem operand_map_congr {query' : κ → μ} {o : Operand κ}
    (same : ∀ key ∈ o.mentions, query key = query' key) : o.map query = o.map query' := by
  cases o with
  | reference key x => simp [Operand.map, same key (by simp [Operand.mentions])]
  | _ => rfl

/-- Only the keys that are mentioned matter. -/
theorem map_congr {query' : κ → μ} {e : Expr κ}
    (same : ∀ key ∈ e.mentions, query key = query' key) : e.map query use = e.map query' use := by
  -- lists of expressions, given the induction hypothesis for their members
  have list : ∀ es : List (Expr κ),
      (∀ e ∈ es, (∀ key ∈ e.mentions, query key = query' key) →
        e.map query use = e.map query' use) →
      (∀ key ∈ mentionsAll es, query key = query' key) →
      mapAll query use es = mapAll query' use es := by
    intro es ih same
    rw [mapAll_eq_map, mapAll_eq_map]
    refine List.map_congr_left fun e he => ih e he fun key hkey => same key ?_
    rw [mentionsAll_eq_flatMap]
    exact List.mem_flatMap.2 ⟨e, he, hkey⟩
  induction e with
  | truth value => rfl
  | compare relation left right =>
    simp only [mentions, List.mem_append] at same
    have hl := operand_map_congr fun key h => same key (.inl h)
    have hr := operand_map_congr fun key h => same key (.inr h)
    simp only [Expr.map, hl, hr]
  | equate column value =>
    have hv := operand_map_congr same
    simp only [Expr.map, hv]
  | any es ih => simp only [Expr.map, list es ih same]
  | group es ih => simp only [Expr.map, list es ih same]
  | not layout condition ih => simp only [Expr.map, ih same]
  | exist body ih => simp only [Expr.map, ih same]
  | table name key => rfl
  | derived layout body key ih =>
    simp only [mentions, List.mem_append, List.mem_singleton] at same
    simp only [Expr.map, ih fun k h => same k (.inl h), same key (.inr rfl)]
  | unionAll es ih => simp only [Expr.map, list es ih same]
  | select distinct columns sources conditions limitOne hs hc =>
    simp only [mentions, List.mem_append] at same
    simp only [Expr.map, list sources hs fun k h => same k (.inl h),
      list conditions hc fun k h => same k (.inr h)]

end Map

/-! ## Numbers -/

/-- Sub-queries are numbered by a function that tells all keys apart. -/
theorem exists_numbering (e : Expr Position) :
    ∃ number : Position → Nat, Function.Injective number ∧
      e.numbered = e.map number e.useNumber := by
  -- keys that are not mentioned get numbers beyond those in use
  let number : Position → Nat := fun key =>
    if key ∈ e.mentions.eraseDups then e.queryNumber key
    else e.mentions.eraseDups.length + Encodable.encode key
  refine ⟨number, ?_, map_congr ?_⟩
  · intro a b same
    have bound : ∀ key ∈ e.mentions.eraseDups, e.queryNumber key < e.mentions.eraseDups.length :=
      fun key h => List.idxOf_lt_length_of_mem h
    -- mentioned keys have their places as numbers, all others codes behind these
    by_cases ha : a ∈ e.mentions.eraseDups <;> by_cases hb : b ∈ e.mentions.eraseDups
    · simp only [number, ha, hb, if_true] at same
      exact (List.idxOf_inj ha).1 same
    · have := bound a ha
      simp only [number, ha, hb, if_true, if_false] at same
      omega
    · have := bound b hb
      simp only [number, ha, hb, if_true, if_false] at same
      omega
    · simp only [number, ha, hb, if_false, Nat.add_left_cancel_iff] at same
      exact Encodable.encode_injective same
  · intro key hkey
    simp only [number, List.mem_eraseDups.2 hkey, if_true]

end Expr

end Sql
end QueryCalculus
