import QueryCalculus.Proofs.Formula.RangeRestriction
import QueryCalculus.Proofs.Sql.Names
import QueryCalculus.Proofs.Sql.References

/-!
# Where range-restricted formulas have their values from

- `Task.Settled` : every free variable of a part is provided by another query or selectable
- `Task.Settled.subtask` : this stays so for the parts below
- `Task.Settled.grounded` : all references are to columns that are there
-/

namespace QueryCalculus
namespace Sql

namespace Task

/-- The parts of a range-restricted formula are range restricted, for the variables known there. -/
theorem restricted_subtask {t : Task} {f : Formula} {next : Task × Formula}
    (restricted : ∃ known, f.rangeRestricted known = true) (h : next ∈ t.subtasks f) :
    ∃ known, next.2.rangeRestricted known = true := by
  have part : ∀ {c : Connective} {parts : List Formula} {f : Formula}, f ∈ parts →
      (∃ known, (Formula.junction c parts).rangeRestricted known = true) →
      ∃ known, f.rangeRestricted known = true := by
    rintro c parts f hf ⟨known, restricted⟩
    cases c with
    | and => exact ⟨_, Formula.rangeRestricted_and.1 restricted f hf⟩
    | or => simp [Formula.rangeRestricted] at restricted
  have body : ∀ {f : Formula}, (∃ known, (Formula.neg f).rangeRestricted known = true) →
      ∃ known, f.rangeRestricted known = true := by
    rintro f ⟨known, restricted⟩
    exact ⟨known, (Formula.rangeRestricted_neg.1 restricted).2⟩
  revert restricted
  refine subtasks_cases (P := fun t f t' f' => (∃ known, f.rangeRestricted known = true) →
    ∃ known, f'.rangeRestricted known = true) ?single ?join ?condition ?alternative ?negNeg ?neg
    ?exist h
  case single => exact fun t c f => part (List.mem_singleton_self f)
  case join => exact fun t parts f n several hf => part (mem_of_joined hf)
  case condition => exact fun t parts f n several hf => part (mem_of_conditional hf)
  case alternative => exact fun t parts f n several hf => part (List.fst_mem_of_mem_zipIdx hf)
  case negNeg => exact fun t f restricted => body (body restricted)
  case neg => exact fun t f plain positive => body
  case exist =>
    rintro t vars f ⟨known, restricted⟩
    exact ⟨_, (Formula.rangeRestricted_exist.1 restricted).2⟩

/-- What the compilation of a range-restricted formula keeps up for every part. -/
structure Settled (t : Task) (f : Formula) : Prop where
  fits : t.Fits f
  outside : t.Outside
  covered : ∀ x : Variable, x.toIdent ∈ f.free → t.providers.find? x = none →
    x.toIdent ∈ f.selectable
  restricted : ∃ known, f.rangeRestricted known = true
  named : f.namesApart = true

namespace Settled

variable {t : Task} {f g : Formula} {parts : List Formula} {x : Variable} {n m : Nat}

/-- What two parts of a conjunction share is wanted of the joined parts, unless it is provided. -/
theorem mem_wanted (settled : t.Settled (.junction .and parts)) (apart : n ≠ m)
    (hn : parts[n]? = some f) (hm : parts[m]? = some g) (hf : x.toIdent ∈ f.free)
    (hg : x.toIdent ∈ g.free) (absent : t.providers.find? x = none) :
    x.toIdent ∈ t.wanted parts := by
  have free : x.toIdent ∈ (Formula.junction .and parts).free :=
    Formula.mem_free_junction.2 ⟨f, List.mem_of_getElem? hn, hf⟩
  have shared := Formula.mem_shared apart hn hm hf hg
  exact Task.mem_wanted.2 (.inr ⟨⟨shared, settled.covered x free absent⟩, absent⟩)

/-- Another part selects what a part can not select itself, so that it is shared. -/
theorem selectable_or_wanted (settled : t.Settled (.junction .and parts)) (hn : parts[n]? = some f)
    (hf : x.toIdent ∈ f.free) (absent : t.providers.find? x = none) :
    x.toIdent ∈ f.selectable ∨ x.toIdent ∈ t.wanted parts := by
  have free : x.toIdent ∈ (Formula.junction .and parts).free :=
    Formula.mem_free_junction.2 ⟨f, List.mem_of_getElem? hn, hf⟩
  rcases Formula.mem_selectable_and.1 (settled.covered x free absent) with ⟨g, hg, selectable⟩
  rcases List.mem_iff_getElem?.1 hg with ⟨m, hm⟩
  -- the part that selects it is this one or another one
  by_cases same : n = m
  · subst same
    have parts : f = g := Option.some.inj (hn.symm.trans hm)
    exact .inl (parts ▸ selectable)
  · exact .inr (settled.mem_wanted same hn hm hf (Formula.selectable_subset_free selectable) absent)

theorem selectable_of_wanted (settled : t.Settled (.junction .and parts))
    (hx : x.toIdent ∈ t.wanted parts) : x.toIdent ∈ (Formula.junction .and parts).selectable := by
  rcases Task.mem_wanted.1 hx with requested | ⟨⟨-, selectable⟩, -⟩
  · exact settled.fits _ requested
  · exact selectable

/-- What is wanted of the joined parts has different names. -/
theorem eq_of_wanted {y : Variable} (settled : t.Settled (.junction .and parts))
    (hx : x.toIdent ∈ t.wanted parts) (hy : y.toIdent ∈ t.wanted parts)
    (same : fold x.name = fold y.name) : x.toIdent = y.toIdent :=
  Formula.eq_of_namesApart settled.named (settled.selectable_of_wanted hx)
    (settled.selectable_of_wanted hy) same

/-- A part that can not select anything has all its variables from other queries. -/
theorem provided (settled : t.Settled f) (none : ∀ x : Ident, x ∉ f.selectable)
    (hx : x.toIdent ∈ f.free) : t.providers.find? x ≠ Option.none :=
  fun absent => none _ (settled.covered x hx absent)

theorem provided_neg (settled : t.Settled (.neg f)) (hx : x.toIdent ∈ f.free) :
    t.providers.find? x ≠ none :=
  settled.provided (fun _ => Formula.not_mem_selectable_neg) (Formula.mem_free_neg.2 hx)

/-! ## Parts below -/

theorem named_part {c : Connective} (settled : t.Settled (.junction c parts)) (hf : f ∈ parts) :
    f.namesApart = true :=
  (Formula.namesApart_junction.1 settled.named).2 f hf

theorem covered_single {c : Connective} (settled : t.Settled (.junction c [f]))
    (hx : x.toIdent ∈ f.free) (absent : t.providers.find? x = none) : x.toIdent ∈ f.selectable := by
  have free : x.toIdent ∈ (Formula.junction c [f]).free :=
    Formula.mem_free_junction.2 ⟨f, by simp, hx⟩
  exact Formula.mem_selectable_single.1 (settled.covered x free absent)

theorem covered_join (settled : t.Settled (.junction .and parts)) (hf : (f, n) ∈ t.joined parts)
    (hx : x.toIdent ∈ f.free) (absent : t.providers.find? x = none) : x.toIdent ∈ f.selectable := by
  rcases settled.selectable_or_wanted (mem_joined.1 hf).2 hx absent with selectable | wanted
  · exact selectable
  · exact selectable_of_joined hf hx wanted

theorem covered_condition (settled : t.Settled (.junction .and parts))
    (complete : (t.missing parts).isEmpty = true) (hf : (f, n) ∈ t.conditional parts)
    (hx : x.toIdent ∈ f.free) (absent : (t.inner parts).find? x = none) :
    x.toIdent ∈ f.selectable := by
  have absent' : t.providers.find? x = none := by
    by_contra provided
    rcases Option.ne_none_iff_exists'.1 provided with ⟨key, found⟩
    have inner := find?_inner_of_some parts found
    exact absurd (inner.symm.trans absent) (by simp)
  rcases settled.selectable_or_wanted (mem_conditional.1 hf).2 hx absent' with selectable | wanted
  · exact selectable
  · -- a joined part provides what is wanted
    rcases exists_joined_of_wanted complete wanted with ⟨entry, hentry, there⟩
    exact absurd there ((find?_inner_of_none parts absent').1.1 absent entry hentry)

theorem covered_within {vars : VarSet} (settled : t.Settled (.quant .exist vars f))
    (hx : x.toIdent ∈ f.free) (absent : (t.within vars).providers.find? x = none) :
    x.toIdent ∈ f.selectable := by
  rcases settled.restricted with ⟨known, restricted⟩
  -- bound variables are selectable by the restriction of the quantifier, all others as before
  by_cases bound : x.toIdent ∈ vars
  · exact (Formula.rangeRestricted_exist.1 restricted).1 _ bound hx
  · rw [Providers.find?_within, if_neg bound] at absent
    have free : x.toIdent ∈ (Formula.quant .exist vars f).free :=
      Formula.mem_free_quant.2 ⟨hx, bound⟩
    exact (Formula.mem_selectable_quant.1 (settled.covered x free absent)).1

/-- What a compiled part keeps up, the parts below keep up as well. -/
theorem subtask {ctx : Context} {e : Expr Position} (settled : t.Settled f)
    (compiled : ctx.formula t f = .ok e) {next : Task × Formula} (h : next ∈ t.subtasks f) :
    next.1.Settled next.2 := by
  have fits := settled.fits.subtask h
  have outside := settled.outside.subtask h
  have restricted := restricted_subtask settled.restricted h
  revert settled compiled fits outside restricted
  refine subtasks_cases (P := fun t f t' f' => t.Settled f → ctx.formula t f = .ok e →
    t'.Fits f' → t'.Outside → (∃ known, f'.rangeRestricted known = true) → t'.Settled f')
    ?single ?join ?condition ?alternative ?negNeg ?neg ?exist h
  case single =>
    intro t c part settled compiled fits outside restricted
    exact ⟨fits, outside, fun x => settled.covered_single, restricted,
      settled.named_part (by simp)⟩
  case join =>
    intro t parts f n several hf settled compiled fits outside restricted
    exact ⟨fits, outside, fun x => settled.covered_join hf, restricted,
      settled.named_part (mem_of_joined hf)⟩
  case condition =>
    intro t parts f n several hf settled compiled fits outside restricted
    -- that nothing is missing is known since the conjunction has been compiled
    have complete := (Context.and_ok several compiled).1
    exact ⟨fits, outside, fun x => settled.covered_condition complete hf, restricted,
      settled.named_part (mem_of_conditional hf)⟩
  case alternative =>
    intro t parts f n several hf settled
    rcases settled.restricted with ⟨known, restricted⟩
    simp [Formula.rangeRestricted] at restricted
  case negNeg =>
    intro t body settled compiled fits outside restricted
    exact ⟨fits, outside,
      fun x hx absent => absurd absent (settled.provided_neg (Formula.mem_free_neg.2 hx)),
      restricted, settled.named⟩
  case neg =>
    intro t body plain positive settled compiled fits outside restricted
    exact ⟨fits, outside, fun x hx absent => absurd absent (settled.provided_neg hx), restricted,
      settled.named⟩
  case exist =>
    intro t vars body settled compiled fits outside restricted
    exact ⟨fits, outside, fun x => settled.covered_within, restricted, settled.named⟩

/-! ## References -/

theorem provided_comparison {c : Comparison} (settled : t.Settled f)
    (none : ∀ x : Ident, x ∉ f.selectable) (free : ∀ x : Ident, x ∈ f.free ↔
      x ∈ (Formula.atom (.comparison c)).free)
    (restricted : ∃ known, (Formula.atom (.comparison c)).rangeRestricted known = true)
    (hx : Term.var x ∈ [c.left, c.right]) : t.providers.find? x ≠ Option.none := by
  rcases restricted with ⟨known, restricted⟩
  have named := Formula.rangeRestricted_comparison restricted hx
  exact settled.provided none ((free _).2 (Formula.mem_free_atom.2 ⟨x, hx, named, rfl⟩))

theorem grounded (settled : t.Settled f) : t.Grounded f := by
  rcases settled.restricted with ⟨known, restricted⟩
  cases f with
  | atom a =>
    cases a with
    | truth b => trivial
    | predicate a => trivial
    | comparison c =>
      exact fun x hx => settled.provided_comparison (fun _ => Formula.not_mem_selectable_comparison)
        (fun _ => Iff.rfl) ⟨known, restricted⟩ hx
  | junction c parts =>
    cases c with
    | or => exact grounded_or
    | and =>
      by_cases several : 1 < parts.length
      · rw [grounded_and_iff several]
        -- what a condition takes from a joined part is shared by these two
        rintro ⟨g, n⟩ hg x hx absent ⟨⟨h, m⟩, hh, there⟩
        exact settled.mem_wanted (place_ne hg hh) (mem_conditional.1 hg).2 (mem_joined.1 hh).2 hx
          there absent
      · match parts, several with
        | [], _ => trivial
        | [_], _ => trivial
        | _ :: _ :: _, few => exact absurd (by simp) few
  | neg body =>
    by_cases plain : ∃ c, body = .atom (.comparison c)
    · rcases plain with ⟨c, rfl⟩
      exact fun x hx => settled.provided_comparison (fun _ => Formula.not_mem_selectable_neg)
        (fun _ => Formula.mem_free_neg) ⟨known, (Formula.rangeRestricted_neg.1 restricted).2⟩ hx
    · exact grounded_neg (not_exists.1 plain)
  | quant q vars body => cases q <;> trivial

/-- All parts of a compiled formula refer to columns that are there. -/
theorem grounded_of_reaches {ctx : Context} {e : Expr Position} (settled : t.Settled f)
    (compiled : ctx.formula t f = .ok e) {goal : Task × Formula} (reached : Reaches (t, f) goal) :
    goal.1.Grounded goal.2 := by
  have kept : goal.1.Settled goal.2 ∧ ∃ e, ctx.formula goal.1 goal.2 = .ok e := by
    refine of_reaches (P := fun a => a.1.Settled a.2 ∧ ∃ e, ctx.formula a.1 a.2 = .ok e) ?_ reached
      ⟨settled, e, compiled⟩
    rintro a ⟨settled, e, compiled⟩ b below
    exact ⟨settled.subtask compiled below, Context.subtask_ok compiled below⟩
  exact kept.1.grounded

end Settled

end Task

/-- A formula whose free variables are all requested and selectable. -/
theorem settled_rootTask {f : Formula} (fits : (rootTask f).Fits f)
    (restricted : f.rangeRestricted ∅ = true) (named : f.namesApart = true) :
    (rootTask f).Settled f where
  fits := fits
  outside _ hentry := absurd hentry List.not_mem_nil
  covered _ hx _ := fits _ hx
  restricted := ⟨∅, restricted⟩
  named := named

end Sql
end QueryCalculus
