import QueryCalculus.Proofs.Sql.Columns

/-!
# How conditions read

- `Expr.pieces` : the operands of a condition with the words between them
- `reading` : what a text says in which `AND` binds tighter than `OR`
- `Expr.ReadsBack` : the text of several conditions reads as these conditions
- `Formula.showsOr` : the condition of a part is a text with a bare `OR`

At the end it is said when all conditions of a statement read as they were built.
-/

namespace QueryCalculus
namespace Sql

/-! ## Texts of conditions -/

section Reading

variable {κ μ : Type}

/-- A condition outside of any parentheses consists of operands with words between them. -/
inductive Piece (κ : Type)
  | operand (e : Expr κ)
  | and
  | or

mutual

/-- Only alternatives are written without parentheses. -/
def Expr.pieces : Expr κ → List (Piece κ)
  | .any es => separated .or es
  | e => [.operand e]

/-- Conditions with a word between them. -/
def separated (word : Piece κ) : List (Expr κ) → List (Piece κ)
  | [] => []
  | [e] => e.pieces
  | e :: e' :: es => e.pieces ++ word :: separated word (e' :: es)

end

/-- Reads a condition: alternatives between the `OR`s, each with the operands between its `AND`s. -/
def reading : List (Piece κ) → List (List (Expr κ))
  | [] => [[]]
  | .or :: rest => [] :: reading rest
  | .and :: rest => reading rest
  | .operand e :: rest => (reading rest).modifyHead (e :: ·)

/-! ## Text and pieces -/

def Piece.text : Piece Nat → String
  | .operand e => e.render
  | .and => " AND "
  | .or => " OR "

def textOf (pieces : List (Piece Nat)) : String :=
  String.join (pieces.map Piece.text)

theorem textOf_append (ps qs : List (Piece Nat)) : textOf (ps ++ qs) = textOf ps ++ textOf qs := by
  simp [textOf]

theorem textOf_cons (p : Piece Nat) (ps : List (Piece Nat)) :
    textOf (p :: ps) = p.text ++ textOf ps := by
  simp [textOf]

theorem textOf_separated_of_forall {word : Piece Nat} {es : List (Expr Nat)}
    (each : ∀ e ∈ es, textOf e.pieces = e.render) :
    textOf (separated word es) = String.intercalate word.text (renderAll es) := by
  induction es with
  | nil => rfl
  | cons e es ih =>
    have here : textOf e.pieces = e.render := each e List.mem_cons_self
    have rest := ih fun e' he' => each e' (List.mem_cons_of_mem e he')
    cases es with
    | nil =>
      rw [separated, here]
      exact String.intercalate_singleton.symm
    | cons e' es =>
      calc
        textOf (separated word (e :: e' :: es))
            = e.render ++ (word.text ++ textOf (separated word (e' :: es))) := by
              rw [separated, textOf_append, textOf_cons, here]
        _ = e.render ++ word.text ++ String.intercalate word.text (renderAll (e' :: es)) := by
              rw [rest, String.append_assoc]
        _ = String.intercalate word.text (renderAll (e :: e' :: es)) := by
              simp only [renderAll, String.intercalate_cons_cons]

/-- The pieces of a condition make up its text. -/
theorem textOf_pieces (e : Expr Nat) : textOf e.pieces = e.render := by
  induction e with
  | any es ih => exact textOf_separated_of_forall ih
  | _ => simp [Expr.pieces, textOf, Piece.text]

/-- The text of several conditions with a word between them. -/
theorem textOf_separated (word : Piece Nat) (es : List (Expr Nat)) :
    textOf (separated word es) = String.intercalate word.text (renderAll es) :=
  textOf_separated_of_forall fun e _ => textOf_pieces e

/-! ## Reading -/

/-- Alternatives, which have no parentheses of their own. -/
def Expr.isAny : Expr κ → Bool
  | .any _ => true
  | _ => false

theorem Expr.pieces_of_isAny_eq_false {e : Expr κ} (plain : e.isAny = false) :
    e.pieces = [.operand e] := by
  cases e with
  | any es => simp [isAny] at plain
  | _ => rfl

theorem mem_separated {word : Piece κ} {es : List (Expr κ)} (several : 1 < es.length) :
    word ∈ separated word es := by
  match es, several with
  | e :: e' :: es, _ => simp [separated]

theorem mem_separated_of_mem {word p : Piece κ} {es : List (Expr κ)} {e : Expr κ} (he : e ∈ es)
    (hp : p ∈ e.pieces) : p ∈ separated word es := by
  induction es with
  | nil => simp at he
  | cons d es ih =>
    cases es with
    | nil =>
      rw [List.mem_singleton.1 he] at hp
      exact hp
    | cons d' es =>
      rw [separated, List.mem_append, List.mem_cons]
      rcases List.mem_cons.1 he with rfl | later
      · exact .inl hp
      · exact .inr (.inr (ih later))

/-- There is one more alternative than there are `OR`s. -/
theorem length_reading (ps : List (Piece κ)) :
    (reading ps).length = 1 + ps.countP (fun | .or => true | _ => false) := by
  induction ps with
  | nil => rfl
  | cons p ps ih =>
    cases p with
    | operand e => simp [reading, ih]
    | and => simp [reading, ih]
    | or =>
      -- only an `OR` opens another alternative
      simp only [reading, List.length_cons, ih, List.countP_cons, if_true]
      omega

theorem reading_of_plain {es : List (Expr κ)} (plain : ∀ e ∈ es, e.isAny = false) :
    reading (separated .and es) = [es] := by
  induction es with
  | nil => rfl
  | cons e es ih =>
    have here : e.pieces = [.operand e] :=
      Expr.pieces_of_isAny_eq_false (plain e List.mem_cons_self)
    have rest := ih fun e' he' => plain e' (List.mem_cons_of_mem e he')
    cases es with
    | nil => simp [separated, here, reading]
    | cons e' es => simp [separated, here, reading, rest]

/-- Conditions that are joined by `AND` read as themselves just if none of them is a bare text with
`OR`. -/
theorem reading_eq_iff {es : List (Expr κ)}
    (proper : ∀ e ∈ es, ∀ ds, e = .any ds → 1 < ds.length) :
    reading (separated .and es) = [es] ↔ ∀ e ∈ es, e.isAny = false := by
  constructor
  · intro same e he
    cases e with
    | any ds =>
      -- alternatives bring an `OR` into the text, and then there are two readings or more
      have or : Piece.or ∈ separated .and es :=
        mem_separated_of_mem he (mem_separated (proper _ he ds rfl))
      have counted : 0 < (separated .and es).countP (fun | .or => true | _ => false) :=
        List.countP_pos_iff.2 ⟨_, or, rfl⟩
      have lengths := length_reading (separated .and es)
      rw [same, List.length_singleton] at lengths
      omega
    | _ => rfl
  · exact reading_of_plain

/-! ## Statements that read back -/

/-- The conditions that are combined with `AND` in the text of an expression. -/
def Expr.conjuncts : Expr κ → List (Expr κ)
  | .group conditions => conditions
  | .select _ _ _ conditions _ => conditions
  | _ => []

/-- The text of several conditions, read with the precedence of the words, says that all of them
hold. -/
def Expr.ReadsBack (e : Expr κ) : Prop :=
  1 < e.conjuncts.length → reading (separated .and e.conjuncts) = [e.conjuncts]

/-- No bare alternatives stand beside other conditions. -/
def Expr.Tidy (e : Expr κ) : Prop :=
  1 < e.conjuncts.length → ∀ c ∈ e.conjuncts, c.isAny = false

/-- Alternatives are at least two. -/
def Expr.Proper (e : Expr κ) : Prop :=
  ∀ es, e = .any es → 1 < es.length

theorem mem_children_of_mem_conjuncts {e c : Expr κ} (h : c ∈ e.conjuncts) : c ∈ e.children := by
  cases e with
  | group conditions => exact h
  | select distinct columns sources conditions limitOne => exact List.mem_append_right _ h
  | _ => simp [Expr.conjuncts] at h

theorem readsBack_iff_tidy {e : Expr κ} (proper : ∀ c ∈ e.children, c.Proper) :
    e.ReadsBack ↔ e.Tidy :=
  forall_congr' fun _ => reading_eq_iff fun c hc => proper c (mem_children_of_mem_conjuncts hc)

section Map

variable {number : κ → μ} {use : String → κ → μ} {e : Expr κ}

theorem conjuncts_map : (e.map number use).conjuncts = e.conjuncts.map (Expr.map number use) := by
  cases e <;> simp [Expr.map, Expr.conjuncts, mapAll_eq_map]

theorem isAny_map : (e.map number use).isAny = e.isAny := by
  cases e <;> rfl

theorem tidy_map_iff : (e.map number use).Tidy ↔ e.Tidy := by
  simp only [Expr.Tidy, conjuncts_map, List.length_map, List.forall_mem_map, isAny_map]

theorem proper_map (h : e.Proper) : (e.map number use).Proper := by
  intro es same
  cases e with
  | any ds =>
    have lengths : es = ds.map (Expr.map number use) := by
      simpa [Expr.map, mapAll_eq_map] using same.symm
    rw [lengths, List.length_map]
    exact h ds rfl
  | _ => simp [Expr.map] at same

end Map

end Reading

end Sql
end QueryCalculus

namespace QueryCalculus

/-- The condition of a part is a text with a bare `OR`, if nothing is requested of the part. -/
def Formula.showsOr : Formula → Bool
  | .junction _ [part] => part.showsOr
  | .junction .or (_ :: _ :: _) => true
  | .neg (.neg body) => body.showsOr
  | .quant .exist _ body => body.showsOr
  | _ => false

theorem Formula.showsOr_and {parts : List Formula} (several : 1 < parts.length) :
    (Formula.junction .and parts).showsOr = false := by
  match parts, several with
  | _ :: _ :: _, _ => rfl

theorem Formula.showsOr_or {parts : List Formula} (several : 1 < parts.length) :
    (Formula.junction .or parts).showsOr = true := by
  match parts, several with
  | _ :: _ :: _, _ => rfl

theorem Formula.showsOr_neg {body : Formula} (positive : ∀ g, body ≠ .neg g) :
    (Formula.neg body).showsOr = false := by
  cases body with
  | neg g => exact absurd rfl (positive g)
  | _ => rfl

namespace Sql

/-- If a conjunction has several conditions, then those that show an `OR` are put into parentheses:
they are junctions themselves. -/
def Task.Enclosed (t : Task) : Formula → Prop
  | .junction .and (part :: part' :: parts) =>
    1 < (t.conditional (part :: part' :: parts)).length →
      ∀ entry ∈ t.conditional (part :: part' :: parts),
        entry.1.connective? = none → entry.1.showsOr = false
  | _ => True

theorem Task.enclosed_and_iff {t : Task} {parts : List Formula} (several : 1 < parts.length) :
    t.Enclosed (.junction .and parts) ↔
      (1 < (t.conditional parts).length → ∀ entry ∈ t.conditional parts,
        entry.1.connective? = none → entry.1.showsOr = false) := by
  match parts, several with
  | _ :: _ :: _, _ => exact Iff.rfl

theorem Task.enclosed_neg {t : Task} {body : Formula} : t.Enclosed (.neg body) :=
  trivial

theorem Task.enclosed_or {t : Task} {parts : List Formula} : t.Enclosed (.junction .or parts) := by
  rcases parts with _ | ⟨_, _ | ⟨_, _⟩⟩ <;> trivial

/-! ## Compiled parts -/

section Parts

variable {ctx : Context} {t : Task}

/-- How the expression for a part reads. -/
structure Reads (t : Task) (f : Formula) (e : Expr Position) : Prop where
  tidy : e.Throughout Expr.Tidy ↔
    ∀ goal, Task.Reaches (t, f) goal → goal.1.Enclosed goal.2
  proper : e.Throughout Expr.Proper
  isAny : t.outermost = false → t.requested.isEmpty = true → e.isAny = f.showsOr

theorem tidy_of_length {e : Expr Position} (few : e.conjuncts.length ≤ 1) : e.Tidy :=
  fun several => absurd several (by omega)

theorem tidy_none {e : Expr Position} (none : e.conjuncts = []) : e.Tidy :=
  tidy_of_length (by simp [none])

theorem tidy_exist (q : Expr Position) : (Expr.exist q).Tidy :=
  tidy_none rfl

theorem tidy_group (c : Expr Position) : (Expr.group [c]).Tidy :=
  tidy_of_length (by simp [Expr.conjuncts])

theorem proper_of_isAny {e : Expr Position} (plain : e.isAny = false) : e.Proper := by
  rintro es rfl
  simp [Expr.isAny] at plain

theorem isAny_select {outermost : Bool} {columns : List Column}
    {sources conditions : List (Expr Position)} :
    (ctx.select outermost columns sources conditions).isAny = false := by
  unfold Context.select
  split <;> rfl

theorem tidy_conditionOr_iff {outermost : Bool} {c : Expr Position} :
    (ctx.conditionOr outermost c).Throughout Expr.Tidy ↔ c.Throughout Expr.Tidy :=
  Context.throughout_conditionOr_iff tidy_exist fun _ _ =>
    tidy_of_length (by simp [Expr.conjuncts])

theorem proper_conditionOr_iff {outermost : Bool} {c : Expr Position} :
    (ctx.conditionOr outermost c).Throughout Expr.Proper ↔ c.Throughout Expr.Proper :=
  Context.throughout_conditionOr_iff (fun _ => proper_of_isAny rfl) fun _ _ =>
    proper_of_isAny rfl

theorem conditionOr_false {c : Expr Position} : ctx.conditionOr false c = c :=
  rfl

/-- A condition without parts. -/
theorem reads_leaf {f : Formula} {c : Expr Position} (children : c.children = [])
    (conjuncts : c.conjuncts = []) (plain : c.isAny = false) (none : t.subtasks f = [])
    (enclosed : t.Enclosed f) (quiet : f.showsOr = false) :
    Reads t f (ctx.conditionOr t.outermost c) where
  tidy := by
    rw [tidy_conditionOr_iff, Expr.throughout_iff, Task.forall_reaches_iff, children, none]
    simp [enclosed, tidy_none conjuncts]
  proper := by
    rw [proper_conditionOr_iff, Expr.throughout_iff, children]
    simp [proper_of_isAny plain]
  isAny inner _ := by rw [inner, conditionOr_false, plain, quiet]

/-- A part that hands over to a single part below. -/
theorem reads_of_subtask {t t' : Task} {f f' : Formula} {e : Expr Position} (h : Reads t' f' e)
    (only : t.subtasks f = [(t', f')]) (enclosed : t.Enclosed f) (shows : f.showsOr = f'.showsOr)
    (outermost : t.outermost = false → t'.outermost = false)
    (requested : t.requested.isEmpty = true → t'.requested.isEmpty = true) : Reads t f e where
  tidy := by
    have reached := Task.forall_reaches_iff (P := fun goal => goal.1.Enclosed goal.2)
      (t := t) (f := f)
    rw [h.tidy, reached, only]
    simp [enclosed]
  proper := h.proper
  isAny inner none := by rw [h.isAny (outermost inner) (requested none), shows]

theorem Reads.conditionOr {f : Formula} {c : Expr Position} (h : Reads t f c) :
    Reads t f (ctx.conditionOr t.outermost c) where
  tidy := tidy_conditionOr_iff.trans h.tidy
  proper := proper_conditionOr_iff.2 h.proper
  isAny inner none := by rw [inner, conditionOr_false, h.isAny inner none]

/-! ### Conjunctions -/

theorem isAny_amongConditions_iff {f : Formula} {c : Expr Position} :
    (amongConditions true f c).isAny = false ↔ f.connective? = none → c.isAny = false := by
  unfold amongConditions
  cases f.connective? with
  | none => simp
  | some connective => simp [Expr.isAny]

theorem length_guarded {several : Bool} {entries : List (Formula × Nat)}
    {conditions : List (Expr Position)} (lengths : entries.length = conditions.length) :
    (guarded several entries conditions).length = entries.length := by
  rw [guarded, List.length_zipWith, ← lengths, Nat.min_self]

theorem length_grouped_le {conditions : List (Expr Position)} :
    (grouped conditions).length ≤ 1 := by
  unfold grouped
  split <;> simp

section Conjunction

variable {parts : List Formula} {conditions : List (Expr Position)}
  (filtered : List.Forall₂ (fun entry c => Reads (t.condition (t.inner parts) entry.2) entry.1 c)
    (t.conditional parts) conditions)

include filtered

/-- The conditions of a conjunction are tidy if they are put into parentheses where needed. -/
theorem tidy_group_iff (several : 1 < parts.length) :
    (Expr.group (guarded (t.several parts) (t.conditional parts) conditions)).Throughout Expr.Tidy ↔
      t.Enclosed (.junction .and parts) ∧ ∀ entry ∈ t.conditional parts,
        ∀ goal, Task.Reaches (t.condition (t.inner parts) entry.2, entry.1) goal →
          goal.1.Enclosed goal.2 := by
  -- inside of the conditions, and beside each other
  have each : (∀ g ∈ guarded (t.several parts) (t.conditional parts) conditions,
        g.Throughout Expr.Tidy) ↔ ∀ entry ∈ t.conditional parts,
      ∀ goal, Task.Reaches (t.condition (t.inner parts) entry.2, entry.1) goal →
        goal.1.Enclosed goal.2 :=
    forall_mem_zipWith_iff (filtered.imp fun entry c h =>
      (Context.throughout_amongConditions_iff tidy_group).trans h.tidy)
  have plain : 1 < (t.conditional parts).length →
      ((∀ g ∈ guarded (t.several parts) (t.conditional parts) conditions, g.isAny = false) ↔
        ∀ entry ∈ t.conditional parts, entry.1.connective? = none → entry.1.showsOr = false) := by
    intro many
    rw [Task.several_iff.2 many]
    refine forall_mem_zipWith_iff (filtered.imp fun entry c h => ?_)
    rw [isAny_amongConditions_iff, h.isAny rfl rfl]
  rw [Expr.throughout_iff, Task.enclosed_and_iff several]
  simp only [Expr.Tidy, Expr.conjuncts, Expr.children, length_guarded filtered.length_eq, each]
  exact and_congr_left' (forall_congr' plain)

theorem proper_guarded :
    ∀ g ∈ guarded (t.several parts) (t.conditional parts) conditions, g.Throughout Expr.Proper := by
  have each : List.Forall₂ (fun entry c =>
      (amongConditions (t.several parts) entry.1 c).Throughout Expr.Proper ↔ True)
      (t.conditional parts) conditions :=
    filtered.imp fun entry c h => iff_true_intro
      ((Context.throughout_amongConditions_iff fun _ => proper_of_isAny rfl).2 h.proper)
  exact (forall_mem_zipWith_iff each).2 fun _ _ => trivial

theorem proper_group :
    (Expr.group (guarded (t.several parts) (t.conditional parts) conditions)).Throughout
      Expr.Proper :=
  Expr.throughout_iff.2 ⟨proper_of_isAny rfl, proper_guarded filtered⟩

end Conjunction

/-! ### All parts -/

/-- All conditions of a scan are equations. -/
theorem reads_scan {a : PredicateAtom} {table : Table} :
    Reads t (.atom (.predicate a))
      (ctx.select t.outermost (ctx.scan t [] (a.terms.zip table.columns)).columns
        [.table table.name t.position] (ctx.scan t [] (a.terms.zip table.columns)).conditions) where
  tidy := by
    rw [Task.forall_reaches_iff]
    refine iff_of_true (Context.throughout_scan tidy_exist (fun _ _ => tidy_none rfl)
      (fun _ _ => tidy_none rfl) ?_) ⟨trivial, by simp [Task.subtasks]⟩
    intro distinct columns limitOne _ c hc
    rcases Context.scan_conditions_equate c hc with ⟨column, value, rfl⟩
    rfl
  proper := Context.throughout_scan (fun _ => proper_of_isAny rfl) (fun _ _ => proper_of_isAny rfl)
    (fun _ _ => proper_of_isAny rfl) fun _ _ _ => proper_of_isAny rfl
  isAny _ _ := isAny_select

theorem reads_join {parts : List Formula} {queries conditions : List (Expr Position)}
    (several : 1 < parts.length)
    (joined : List.Forall₂ (fun entry q =>
      Reads (t.join (t.wanted parts) entry.1 entry.2) entry.1 q) (t.joined parts) queries)
    (filtered : List.Forall₂ (fun entry c => Reads (t.condition (t.inner parts) entry.2) entry.1 c)
      (t.conditional parts) conditions) :
    Reads t (.junction .and parts) (ctx.select t.outermost
      (t.requested.toList.map (ctx.passedOn t.outermost)) (t.sources (t.joined parts) queries)
      (grouped (guarded (t.several parts) (t.conditional parts) conditions))) where
  tidy := by
    have sources : (∀ e ∈ t.sources (t.joined parts) queries, e.Throughout Expr.Tidy) ↔
        ∀ entry ∈ t.joined parts,
          ∀ goal, Task.Reaches (t.join (t.wanted parts) entry.1 entry.2, entry.1) goal →
            goal.1.Enclosed goal.2 :=
      forall_mem_zipWith_iff (joined.imp fun entry q h =>
        (Context.throughout_derived_iff (tidy_none rfl)).trans h.tidy)
    -- the conditions are one group, in which they are put into parentheses where needed
    have one : ∀ distinct columns sources limitOne, (Expr.select distinct columns sources
        (grouped (guarded (t.several parts) (t.conditional parts) conditions)) limitOne).Tidy :=
      fun _ _ _ _ => tidy_of_length length_grouped_le
    rw [Context.throughout_select_iff tidy_exist, and_iff_right (one _ _ _ _), sources,
      Context.throughout_grouped_iff (tidy_none rfl), tidy_group_iff filtered several,
      Task.forall_reaches_iff, Task.subtasks_and several, List.forall_mem_append,
      List.forall_mem_map, List.forall_mem_map]
    tauto
  proper := by
    have sources : List.Forall₂ (fun (entry : Formula × Nat) q =>
        (Expr.derived (layoutOf entry.1) q (entry.2 :: t.position)).Throughout Expr.Proper ↔ True)
        (t.joined parts) queries := by
      refine joined.imp fun entry q h =>
        iff_true_intro (Expr.throughout_iff.2 ⟨proper_of_isAny rfl, ?_⟩)
      exact List.forall_mem_singleton.2 h.proper
    rw [Context.throughout_select_iff fun q => proper_of_isAny rfl]
    refine ⟨proper_of_isAny rfl, (forall_mem_zipWith_iff sources).2 fun _ _ => trivial, ?_⟩
    exact (Context.throughout_grouped_iff (proper_of_isAny rfl)).2 (proper_group filtered)
  isAny _ _ := by rw [isAny_select, Formula.showsOr_and several]

/-- Only a disjunction of which nothing is requested is a bare `OR`. -/
theorem reads_disjunction {parts : List Formula} {es : List (Expr Position)}
    (several : 1 < parts.length)
    (each : List.Forall₂ (fun entry e => Reads (t.alternative entry.2) entry.1 e) parts.zipIdx es) :
    Reads t (.junction .or parts) (ctx.disjunction t es) where
  tidy := by
    have below : (∀ e ∈ es, e.Throughout Expr.Tidy) ↔ ∀ entry ∈ parts.zipIdx,
        ∀ goal, Task.Reaches (t.alternative entry.2, entry.1) goal → goal.1.Enclosed goal.2 :=
      forall_mem_right_iff (each.imp fun entry e h => h.tidy)
    rw [Context.throughout_disjunction_iff tidy_exist
        (fun _ _ _ _ _ few => tidy_of_length few) (fun _ _ _ => tidy_none rfl) (tidy_none rfl),
      below, Task.forall_reaches_iff, Task.subtasks_or several, List.forall_mem_map,
      and_iff_right Task.enclosed_or, and_iff_right fun _ => tidy_none rfl]
  proper := by
    have proper : ∀ e ∈ es, e.Throughout Expr.Proper := by
      intro e he
      rcases forall₂_exists_left each he with ⟨entry, -, h⟩
      exact h.proper
    have any : (Expr.any es).Proper := by
      intro ds same
      cases same
      rw [← each.length_eq, List.length_zipIdx]
      exact several
    rw [Context.throughout_disjunction_iff (fun _ => proper_of_isAny rfl)
        (fun _ _ _ _ _ _ => proper_of_isAny rfl) (fun _ _ _ => proper_of_isAny rfl) any]
    exact ⟨fun _ => proper_of_isAny rfl, proper⟩
  isAny inner none := by
    rw [Context.disjunction, if_pos none, inner, conditionOr_false, Formula.showsOr_or several]
    rfl

/-- How a compiled part reads. -/
theorem formula_reads {f : Formula} {e : Expr Position} (compiled : ctx.formula t f = .ok e) :
    Reads t f e := by
  refine Context.formula_induction (I := fun _ _ => True) (motive := Reads)
    (fun _ _ _ _ _ => trivial) ?truth ?comparison ?predicate ?empty ?single ?filter ?join
    ?alternatives ?negComparison ?negNeg ?neg ?exist compiled trivial
  case truth => exact fun t b _ => reads_leaf rfl rfl rfl rfl trivial rfl
  case comparison => exact fun t c _ => reads_leaf rfl rfl rfl rfl trivial rfl
  case predicate => exact fun t a table _ _ => reads_scan
  case empty =>
    intro t c _
    cases c <;> exact reads_leaf rfl rfl rfl rfl trivial rfl
  case single =>
    intro t c part e _ ih
    exact reads_of_subtask ih rfl (by cases c <;> trivial) (by cases c <;> rfl) id id
  case filter =>
    intro t parts conditions _ several complete unjoined some ih
    constructor
    · rw [tidy_conditionOr_iff, tidy_group_iff ih several, Task.forall_reaches_iff,
        Task.subtasks_and several, unjoined, List.map_nil, List.nil_append, List.forall_mem_map]
    · exact proper_conditionOr_iff.2 (proper_group ih)
    · intro inner _
      rw [inner, conditionOr_false, Formula.showsOr_and several]
      rfl
  case join =>
    exact fun t parts queries conditions _ several _ _ _ ih ih' => reads_join several ih ih'
  case alternatives => exact fun t parts es _ several _ ih => reads_disjunction several ih
  case negComparison => exact fun t c _ => reads_leaf rfl rfl rfl rfl trivial rfl
  case negNeg =>
    intro t body e _ ih
    have below : Reads t (.neg (.neg body)) e :=
      reads_of_subtask ih rfl trivial rfl (fun _ => rfl) (fun _ => rfl)
    exact below.conditionOr
  case neg =>
    intro t body e layout _ plain positive ih
    have below : Reads t (.neg body) (.not layout e) := by
      constructor
      · rw [Expr.throughout_iff, and_iff_right (tidy_none rfl),
          Task.forall_reaches_iff, Task.subtasks_neg plain positive,
          and_iff_right Task.enclosed_neg]
        simp only [Expr.children, List.forall_mem_singleton]
        exact ih.tidy
      · exact Expr.throughout_iff.2 ⟨proper_of_isAny rfl, List.forall_mem_singleton.2 ih.proper⟩
      · intro _ _
        rw [Formula.showsOr_neg positive]
        rfl
    exact below.conditionOr
  case exist =>
    intro t vars body e _ _ ih
    refine reads_of_subtask ih rfl trivial rfl id ?_
    -- what is requested of the body is requested of the part, so nothing is
    intro none
    refine VarSet.isEmpty_iff.2 fun x hx => ?_
    exact VarSet.isEmpty_iff.1 none x (VarSet.mem_diff.1 hx).1

end Parts

/-! ## Compiled statements -/

/-- In the text of a statement, conditions with `AND` between them read as these conditions, just if
no conjunction of the formula has an unenclosed `OR` beside other conditions. -/
theorem compile_readsBack_iff {schema : Schema} {labels : Labels} {distinct : Bool} {f : Formula}
    {e : Expr Nat} (compiled : compile schema labels distinct f = .ok e) :
    (e.Throughout fun s => textOf (separated .and s.conjuncts) =
        String.intercalate " AND " (renderAll s.conjuncts)) ∧
      (e.Throughout Expr.ReadsBack ↔
        ∀ goal, Task.Reaches (rootTask f.prepared, f.prepared) goal → goal.1.Enclosed goal.2) := by
  rcases compile_ok compiled with ⟨e', -, inside, rfl⟩
  have reads := formula_reads inside
  have proper : e'.numbered.Throughout Expr.Proper :=
    Expr.throughout_map_iff.2 fun s hs => proper_map (reads.proper s hs)
  have tidy : e'.numbered.Throughout Expr.Tidy ↔ e'.Throughout Expr.Tidy := by
    rw [Expr.numbered, Expr.throughout_map_iff]
    simp only [tidy_map_iff]
  refine ⟨fun s _ => textOf_separated .and s.conjuncts, ?_⟩
  rw [← reads.tidy, ← tidy]
  refine forall₂_congr fun s hs => readsBack_iff_tidy ?_
  intro c hc
  exact proper c (hs.tail hc)

/-- `A(x) ∧ ¬ B(x) ∧ (¬ B(x) ∨ ¬ C(x))` -/
def enclosed : Formula :=
  .junction .and [.predicate ⟨"A", [.var ⟨⟨"x", none⟩, .undefined⟩], .undefined⟩,
    .neg (.predicate ⟨"B", [.var ⟨⟨"x", none⟩, .undefined⟩], .undefined⟩),
    .junction .or [.neg (.predicate ⟨"B", [.var ⟨⟨"x", none⟩, .undefined⟩], .undefined⟩),
      .neg (.predicate ⟨"C", [.var ⟨⟨"x", none⟩, .undefined⟩], .undefined⟩)]]

theorem enclosed_readsBack :
    ∃ e, compile ⟨[⟨"A", ["a"]⟩, ⟨"B", ["b"]⟩, ⟨"C", ["c"]⟩], []⟩ [] false enclosed = .ok e ∧
      (e.Throughout fun s => textOf (separated .and s.conjuncts) =
        String.intercalate " AND " (renderAll s.conjuncts)) ∧
      e.Throughout Expr.ReadsBack := by
  have compiled : compile ⟨[⟨"A", ["a"]⟩, ⟨"B", ["b"]⟩, ⟨"C", ["c"]⟩], []⟩ [] false enclosed =
      .ok _ := rfl
  have reads := compile_readsBack_iff compiled
  refine ⟨_, compiled, reads.1, reads.2.2 ?_⟩
  have atom : ∀ (t : Task) a goal, Task.Reaches (t, .predicate a) goal → goal.1.Enclosed goal.2 :=
    fun t a => Task.forall_reaches_iff.2 ⟨trivial, nofun⟩
  have negation : ∀ (t : Task) a goal, Task.Reaches (t, .neg (.predicate a)) goal →
      goal.1.Enclosed goal.2 :=
    fun t a => Task.forall_reaches_iff.2 ⟨trivial, List.forall_mem_singleton.2 (atom _ a)⟩
  -- the disjunction is one of two conditions, and gets its parentheses as it is a junction
  refine Task.forall_reaches_iff.2 ⟨fun _ => by decide +kernel, List.forall_mem_cons.2
    ⟨atom _ _, List.forall_mem_cons.2 ⟨negation _ _, List.forall_mem_singleton.2 ?_⟩⟩⟩
  exact Task.forall_reaches_iff.2 ⟨trivial, List.forall_mem_cons.2
    ⟨negation _ _, List.forall_mem_singleton.2 (negation _ _)⟩⟩

/-- `A(x) ∧ ¬ B(x) ∧ ∃ y (B(y) ∨ C(y))` -/
def unenclosed : Formula :=
  .junction .and [.predicate ⟨"A", [.var ⟨⟨"x", none⟩, .undefined⟩], .undefined⟩,
    .neg (.predicate ⟨"B", [.var ⟨⟨"x", none⟩, .undefined⟩], .undefined⟩),
    .quant .exist (VarSet.ofList [⟨⟨"y", none⟩, .undefined⟩])
      (.junction .or [.predicate ⟨"B", [.var ⟨⟨"y", none⟩, .undefined⟩], .undefined⟩,
        .predicate ⟨"C", [.var ⟨⟨"y", none⟩, .undefined⟩], .undefined⟩])]

/-- The alternatives stand beside the negation without parentheses. -/
theorem unenclosed_not_readsBack :
    ∃ e, compile ⟨[⟨"A", ["a"]⟩, ⟨"B", ["b"]⟩, ⟨"C", ["c"]⟩], []⟩ [] false unenclosed = .ok e ∧
      ¬ e.Throughout Expr.ReadsBack := by
  refine ⟨_, rfl, ?_⟩
  intro all
  have group := all _ (.single (List.mem_append_right _ List.mem_cons_self))
  have lengths := congrArg List.length (group (by decide))
  revert lengths
  decide

end Sql
end QueryCalculus
