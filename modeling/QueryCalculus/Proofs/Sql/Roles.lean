import QueryCalculus.Proofs.Formula.FreeVariables
import QueryCalculus.Sql.Compile

/-!
# How a conjunction is divided

- `Task.conditional` : the parts of a conjunction that become conditions
- `Task.forall_parts_iff` : the joined parts and the conditions together say as much as all parts
- `Task.mem_wanted`, `Task.exists_joined_of_wanted` : what is wanted of the joined parts, and that
  one of them has it
- `Task.find?_inner_of_some`, `Task.find?_inner_of_none` : where the conditions find the values of a
  variable
-/

namespace QueryCalculus
namespace Sql

/-! ## Parts with a role -/

theorem mem_partsWith {role : Role} {n : Nat} {roles : List Role} {parts : List Formula}
    {f : Formula} {m : Nat} :
    (f, m) ∈ partsWith role n roles parts ↔
      ∃ k, m = n + k ∧ roles[k]? = some role ∧ parts[k]? = some f := by
  induction roles generalizing n parts with
  | nil => simp [partsWith]
  | cons r roles ih =>
    cases parts with
    | nil => simp [partsWith]
    | cons part parts =>
      -- the part at the front has the place `n`, and the others are those of the tails
      have later : (f, m) ∈ partsWith role (n + 1) roles parts ↔
          ∃ k, m = n + (k + 1) ∧ roles[k]? = some role ∧ parts[k]? = some f := by
        have shift : ∀ k, n + 1 + k = n + (k + 1) := by omega
        simpa only [shift] using @ih (n + 1) parts
      have split : (∃ k, m = n + k ∧ (r :: roles)[k]? = some role ∧ (part :: parts)[k]? = some f) ↔
          (m = n ∧ r = role ∧ part = f) ∨
            ∃ k, m = n + (k + 1) ∧ roles[k]? = some role ∧ parts[k]? = some f := by
        constructor
        · rintro ⟨k, hm, hr, hf⟩
          cases k with
          | zero => exact .inl ⟨hm, by simpa using hr, by simpa using hf⟩
          | succ k => exact .inr ⟨k, hm, by simpa using hr, by simpa using hf⟩
        · rintro (⟨hm, hr, hf⟩ | ⟨k, hm, hr, hf⟩)
          · exact ⟨0, hm, by simp [hr], by simp [hf]⟩
          · exact ⟨k + 1, hm, by simpa using hr, by simpa using hf⟩
      rw [split, ← later, partsWith]
      by_cases here : r = role
      · rw [if_pos here, List.mem_cons, Prod.mk.injEq]
        constructor
        · rintro (⟨hf, hm⟩ | tail)
          · exact .inl ⟨hm, here, hf.symm⟩
          · exact .inr tail
        · rintro (⟨hm, -, hf⟩ | tail)
          · exact .inl ⟨hf.symm, hm⟩
          · exact .inr tail
      · rw [if_neg here]
        constructor
        · exact .inr
        · rintro (⟨-, hr, -⟩ | tail)
          · exact absurd hr here
          · exact tail

theorem mem_partsWith_zero {role : Role} {roles : List Role} {parts : List Formula} {f : Formula}
    {m : Nat} :
    (f, m) ∈ partsWith role 0 roles parts ↔ roles[m]? = some role ∧ parts[m]? = some f := by
  rw [mem_partsWith]
  constructor
  · rintro ⟨k, rfl, found⟩
    simpa using found
  · intro found
    exact ⟨m, by omega, found⟩

/-- Places increase. -/
theorem pairwise_partsWith {role : Role} {n : Nat} {roles : List Role} {parts : List Formula} :
    (partsWith role n roles parts).Pairwise fun a b => a.2 < b.2 := by
  induction roles generalizing n parts with
  | nil => simp [partsWith]
  | cons r roles ih =>
    cases parts with
    | nil => simp [partsWith]
    | cons part parts =>
      rw [partsWith]
      split
      · refine List.pairwise_cons.2 ⟨?_, ih⟩
        rintro ⟨f, m⟩ hm
        -- all later places are behind this one
        rcases mem_partsWith.1 hm with ⟨k, place, -⟩
        simp only
        omega
      · exact ih

theorem length_partsWith {role : Role} {n : Nat} {roles : List Role} {parts : List Formula}
    (lengths : roles.length = parts.length) :
    (partsWith role n roles parts).length = roles.count role := by
  induction roles generalizing n parts with
  | nil => simp [partsWith]
  | cons r roles ih =>
    cases parts with
    | nil => simp at lengths
    | cons part parts =>
      have tails : roles.length = parts.length := by simpa using lengths
      rw [partsWith, List.count_cons]
      by_cases here : r = role
      · simp [here, ih tails]
      · simp [here, ih tails]

/-! ## Roles -/

theorem length_roles {wanted : VarSet} {seen parts : List Formula} :
    (roles wanted seen parts).length = parts.length := by
  induction parts generalizing seen with
  | nil => rfl
  | cons part parts ih => simp [roles, ih]

/-- The role of a part follows from what is wanted, unless the part repeats an earlier one. -/
theorem roles_getElem? {wanted : VarSet} {seen parts : List Formula} {m : Nat} {f : Formula}
    (hf : parts[m]? = some f) :
    (roles wanted seen parts)[m]? = some .repeated ∨
      (roles wanted seen parts)[m]? = some (roleOf wanted f) := by
  induction parts generalizing seen m with
  | nil => simp at hf
  | cons part parts ih =>
    cases m with
    | zero =>
      have same : part = f := by simpa using hf
      subst same
      rw [roles, List.getElem?_cons_zero]
      split
      · exact .inl rfl
      · exact .inr rfl
    | succ m =>
      have tail : parts[m]? = some f := by simpa using hf
      rw [roles, List.getElem?_cons_succ]
      exact ih tail

theorem roleOf_ne_repeated {wanted : VarSet} {f : Formula} : roleOf wanted f ≠ .repeated := by
  simp only [roleOf]
  split <;> simp

theorem roleOf_eq_join_iff {wanted : VarSet} {f : Formula} :
    roleOf wanted f = .join ↔
      (∃ x : Ident, x ∈ f.free ∧ x ∈ wanted) ∧
        ∀ x : Ident, x ∈ f.free → x ∈ wanted → x ∈ f.selectable := by
  have empty : (f.free.inter wanted).isEmpty = false ↔ ∃ x : Ident, x ∈ f.free ∧ x ∈ wanted := by
    rw [← Bool.not_eq_true, VarSet.isEmpty_iff]
    simp
  have subset : (f.free.inter wanted).isSubset f.selectable = true ↔
      ∀ x : Ident, x ∈ f.free → x ∈ wanted → x ∈ f.selectable := by
    rw [VarSet.isSubset_iff]
    simp
  rw [← empty, ← subset, roleOf]
  cases (f.free.inter wanted).isEmpty <;> cases (f.free.inter wanted).isSubset f.selectable <;> simp

/-- A repeated part is equal to a part seen before or to an earlier part that is not repeated. -/
theorem exists_same_of_repeated {wanted : VarSet} {seen parts : List Formula} {m : Nat}
    {f : Formula} (hf : parts[m]? = some f)
    (hr : (roles wanted seen parts)[m]? = some .repeated) :
    (∃ g ∈ seen, f.same g = true) ∨
      ∃ (k : Nat) (g : Formula), parts[k]? = some g ∧
        (roles wanted seen parts)[k]? = some (roleOf wanted g) ∧ f.same g = true := by
  induction parts generalizing seen m f with
  | nil => simp at hf
  | cons part parts ih =>
    -- an equal part is the first one, which may repeat something seen before, or a later one
    have first : ∀ g : Formula, g.same part = true → (∃ h ∈ seen, g.same h = true) ∨
        ∃ (k : Nat) (h : Formula), (part :: parts)[k]? = some h ∧
          (roles wanted seen (part :: parts))[k]? = some (roleOf wanted h) ∧ g.same h = true := by
      intro g same
      by_cases known : seen.contains part = true
      · rcases List.contains_iff_exists_mem_beq.1 known with ⟨h, hh, found⟩
        exact .inl ⟨h, hh, Formula.same_trans same found⟩
      · refine .inr ⟨0, part, rfl, ?_, same⟩
        simp [roles, known]
    cases m with
    | zero =>
      have here : part = f := by simpa using hf
      subst here
      by_cases known : seen.contains part = true
      · rcases List.contains_iff_exists_mem_beq.1 known with ⟨h, hh, found⟩
        exact .inl ⟨h, hh, found⟩
      · have role : roleOf wanted part = .repeated := by simpa [roles, known] using hr
        exact absurd role roleOf_ne_repeated
    | succ m =>
      have tail : parts[m]? = some f := by simpa using hf
      rw [roles, List.getElem?_cons_succ] at hr
      -- the part at the front counts as seen for the rest
      rcases ih tail hr with ⟨g, hg, same⟩ | ⟨k, g, hg, role, same⟩
      · rcases List.mem_cons.1 hg with rfl | hg
        · exact first f same
        · exact .inl ⟨g, hg, same⟩
      · refine .inr ⟨k + 1, g, by simpa using hg, ?_, same⟩
        simpa [roles] using role

namespace Task

variable {t : Task} {parts : List Formula} {f : Formula} {n : Nat}

/-- The conditions of a conjunction, each with its place. -/
def conditional (t : Task) (parts : List Formula) : List (Formula × Nat) :=
  partsWith .condition 0 (t.roles parts) parts

theorem mem_joined :
    (f, n) ∈ t.joined parts ↔ (t.roles parts)[n]? = some .join ∧ parts[n]? = some f :=
  mem_partsWith_zero

theorem mem_conditional :
    (f, n) ∈ t.conditional parts ↔ (t.roles parts)[n]? = some .condition ∧ parts[n]? = some f :=
  mem_partsWith_zero

theorem mem_of_joined (h : (f, n) ∈ t.joined parts) : f ∈ parts :=
  List.mem_of_getElem? (mem_joined.1 h).2

theorem mem_of_conditional (h : (f, n) ∈ t.conditional parts) : f ∈ parts :=
  List.mem_of_getElem? (mem_conditional.1 h).2

theorem several_iff : t.several parts = true ↔ 1 < (t.conditional parts).length := by
  have lengths : (t.roles parts).length = parts.length := length_roles
  rw [conditional, length_partsWith lengths, several, decide_eq_true_iff]

theorem role_getElem? (hf : parts[n]? = some f) :
    (t.roles parts)[n]? = some .repeated ∨
      (t.roles parts)[n]? = some (roleOf (t.wanted parts) f) :=
  roles_getElem? hf

theorem mem_joined_or_conditional {g : Formula} {k : Nat} (hg : parts[k]? = some g)
    (role : (t.roles parts)[k]? = some (roleOf (t.wanted parts) g)) :
    (g, k) ∈ t.joined parts ∨ (g, k) ∈ t.conditional parts := by
  cases found : roleOf (t.wanted parts) g with
  | join => exact .inl (mem_joined.2 ⟨found ▸ role, hg⟩)
  | condition => exact .inr (mem_conditional.2 ⟨found ▸ role, hg⟩)
  | repeated => exact absurd found roleOf_ne_repeated

/-- Every part is joined or a condition, or it is equal to such a part. -/
theorem exists_same (hf : f ∈ parts) :
    ∃ entry, (entry ∈ t.joined parts ∨ entry ∈ t.conditional parts) ∧
      (f = entry.1 ∨ f.same entry.1 = true) := by
  rcases List.mem_iff_getElem?.1 hf with ⟨m, hm⟩
  rcases role_getElem? (t := t) hm with repeated | role
  · -- nothing is seen before the first part
    rcases exists_same_of_repeated hm repeated with ⟨g, hg, -⟩ | ⟨k, g, hg, role, same⟩
    · simp at hg
    · exact ⟨(g, k), mem_joined_or_conditional hg role, .inr same⟩
  · exact ⟨(f, m), mem_joined_or_conditional hm role, .inl rfl⟩

/-- A property that equal formulas share holds of all parts if it holds of those that are joined or
become conditions. -/
theorem forall_parts_iff {P : Formula → Prop}
    (respects : ∀ f g : Formula, f.same g = true → (P f ↔ P g)) :
    (∀ f ∈ parts, P f) ↔
      (∀ entry ∈ t.joined parts, P entry.1) ∧ ∀ entry ∈ t.conditional parts, P entry.1 := by
  constructor
  · intro all
    exact ⟨fun entry h => all _ (mem_of_joined h), fun entry h => all _ (mem_of_conditional h)⟩
  · rintro ⟨joined, conditions⟩ f hf
    rcases exists_same (t := t) hf with ⟨entry, role, same⟩
    have holds : P entry.1 := role.elim (joined entry) (conditions entry)
    rcases same with rfl | same
    · exact holds
    · exact (respects _ _ same).2 holds

/-! ## What the joined parts select -/

theorem roleOf_eq {role : Role} (proper : role ≠ .repeated)
    (h : (f, n) ∈ partsWith role 0 (t.roles parts) parts) : roleOf (t.wanted parts) f = role := by
  rcases mem_partsWith_zero.1 h with ⟨found, hf⟩
  rcases role_getElem? (t := t) hf with repeated | same
  · exact absurd (Option.some.inj (found.symm.trans repeated)) proper
  · exact Option.some.inj (same.symm.trans found)

theorem role_of_joined (h : (f, n) ∈ t.joined parts) : roleOf (t.wanted parts) f = .join :=
  roleOf_eq (by simp) h

theorem role_of_conditional (h : (f, n) ∈ t.conditional parts) :
    roleOf (t.wanted parts) f = .condition :=
  roleOf_eq (by simp) h

theorem selectable_of_joined {x : Ident} (h : (f, n) ∈ t.joined parts) (free : x ∈ f.free)
    (hx : x ∈ t.wanted parts) : x ∈ f.selectable :=
  (roleOf_eq_join_iff.1 (role_of_joined h)).2 x free hx

theorem mem_requested_join {x : Ident} (h : (f, n) ∈ t.joined parts) :
    x ∈ (t.join (t.wanted parts) f n).requested ↔ x ∈ t.wanted parts ∧ x ∈ f.free := by
  simp only [join, VarSet.mem_inter]
  constructor
  · intro hx
    exact ⟨hx.1, Formula.selectable_subset_free hx.2⟩
  · intro hx
    exact ⟨hx.1, selectable_of_joined h hx.2 hx.1⟩

theorem requested_join_nonempty (h : (f, n) ∈ t.joined parts) :
    (t.join (t.wanted parts) f n).requested.isEmpty = false := by
  rcases (roleOf_eq_join_iff.1 (role_of_joined h)).1 with ⟨x, free, hx⟩
  rw [← Bool.not_eq_true, VarSet.isEmpty_iff]
  intro none
  exact none x ((mem_requested_join h).2 ⟨hx, free⟩)

/-- If nothing is missing, then some joined part has a wanted variable. -/
theorem exists_joined_of_wanted {x : Ident} (complete : (t.missing parts).isEmpty = true)
    (hx : x ∈ t.wanted parts) : ∃ entry ∈ t.joined parts, x ∈ entry.1.free := by
  -- what is missing is what is wanted and free in no joined part
  have found := VarSet.isEmpty_iff.1 complete x
  simp only [missing, VarSet.mem_diff, VarSet.mem_ofList, List.mem_flatMap, not_and,
    not_not] at found
  rcases found hx with ⟨y, ⟨entry, hentry, hy⟩, rfl⟩
  exact ⟨entry, hentry, VarSet.toIdent_mem hy⟩

/-- If nothing is missing and nothing is joined, then nothing is requested. -/
theorem requested_isEmpty (complete : (t.missing parts).isEmpty = true)
    (unjoined : t.joined parts = []) : t.requested.isEmpty = true := by
  refine VarSet.isEmpty_iff.2 fun x hx => ?_
  have wanted : x ∈ t.wanted parts := VarSet.mem_union.2 (.inl hx)
  rcases exists_joined_of_wanted complete wanted with ⟨entry, hentry, -⟩
  simp [unjoined] at hentry

end Task

/-! ## Providers -/

namespace Providers

variable {p : Providers} {x y : Variable}

theorem find?_congr (same : x.toIdent = y.toIdent) : p.find? x = p.find? y :=
  congrArg (Option.map Prod.snd) (find?_entry_congr same)

theorem find?_append {q : Providers} :
    find? (p ++ q) x = (p.find? x <|> q.find? x) := by
  unfold find?
  rw [List.find?_append]
  cases List.find? (fun entry => entry.1 == x) p <;> rfl

theorem find?_eq_none_iff : p.find? x = none ↔ ∀ entry ∈ p, entry.1.toIdent ≠ x.toIdent :=
  find?_entry_eq_none_iff

theorem mem_of_find? {k : Position} (h : p.find? x = some k) :
    ∃ z, (z, k) ∈ p ∧ z.toIdent = x.toIdent :=
  mem_of_find?_entry h

/-- Inside of a quantifier nothing provides the bound variables. -/
theorem find?_within {t : Task} {vars : VarSet} :
    (t.within vars).providers.find? x = if x.toIdent ∈ vars then none else t.providers.find? x := by
  -- an entry for the variable is dropped just if the variable is bound
  have kept : ∀ entry : Variable × Position, entry.1.toIdent = x.toIdent →
      ((!vars.contains entry.1) = true ↔ x.toIdent ∉ vars) := by
    intro entry same
    rw [← same, ← VarSet.contains_iff]
    simp
  split
  · rename_i bound
    rw [find?_eq_none_iff]
    intro entry hentry same
    have test := (List.mem_filter.1 hentry).2
    exact (kept entry same).1 test bound
  · rename_i free
    unfold find? Task.within
    simp only [List.find?_filter]
    congr 2
    funext entry
    by_cases same : (entry.1 == x) = true
    · simp [(kept entry (Variable.beq_iff.1 same)).2 free]
    · simp [same]

end Providers

namespace Task

variable {t : Task} {parts : List Formula}

/-- What is wanted of the joined parts: the requested variables and the shared ones that nothing
around the conjunction provides. -/
theorem mem_wanted {x : Variable} :
    x.toIdent ∈ t.wanted parts ↔ x.toIdent ∈ t.requested ∨
      (x.toIdent ∈ (Formula.junction .and parts).shared ∧
        x.toIdent ∈ (Formula.junction .and parts).selectable) ∧ t.providers.find? x = none := by
  -- being provided depends on the identity of a variable only
  have test : ∀ z : Variable, (t.providers.find? z).isNone = true ↔
      ∀ entry ∈ t.providers, entry.1.toIdent ≠ z.toIdent := by
    intro z
    rw [Option.isNone_iff_eq_none, Providers.find?_eq_none_iff]
  rw [wanted, VarSet.mem_union,
    VarSet.mem_filter (p := fun z => ∀ entry ∈ t.providers, entry.1.toIdent ≠ z) test,
    VarSet.mem_inter, Providers.find?_eq_none_iff]

/-- What the queries around a conjunction provide stays as it is for its conditions. -/
theorem find?_inner_of_some (parts : List Formula) {x : Variable} {k : Position}
    (h : t.providers.find? x = some k) :
    (t.inner parts).find? x = some k := by
  rw [inner, Providers.find?_append, h]
  rfl

theorem find?_inner_of_none (parts : List Formula) {x : Variable}
    (h : t.providers.find? x = none) :
    ((t.inner parts).find? x = none ↔ ∀ entry ∈ t.joined parts, x.toIdent ∉ entry.1.free) ∧
      ∀ k, (t.inner parts).find? x = some k →
        ∃ entry ∈ t.joined parts, x.toIdent ∈ entry.1.free ∧ k = entry.2 :: t.position := by
  rw [inner, Providers.find?_append, h, Option.orElse_eq_orElse, Option.orElse_eq_or,
    Option.none_or]
  constructor
  · rw [Providers.find?_eq_none_iff]
    constructor
    · intro none entry hentry hx
      rcases VarSet.mem_iff.1 hx with ⟨y, hy, same⟩
      exact none (y, entry.2 :: t.position)
        (List.mem_flatMap.2 ⟨entry, hentry, List.mem_map.2 ⟨y, hy, rfl⟩⟩) same
    · intro none provider hprovider same
      rcases List.mem_flatMap.1 hprovider with ⟨entry, hentry, hp⟩
      rcases List.mem_map.1 hp with ⟨y, hy, rfl⟩
      exact none entry hentry (same ▸ VarSet.toIdent_mem hy)
  · intro k found
    rcases Providers.mem_of_find? found with ⟨z, hz, same⟩
    rcases List.mem_flatMap.1 hz with ⟨entry, hentry, hp⟩
    rcases List.mem_map.1 hp with ⟨y, hy, pair⟩
    cases pair
    exact ⟨entry, hentry, same ▸ VarSet.toIdent_mem hy, rfl⟩

end Task

end Sql
end QueryCalculus
