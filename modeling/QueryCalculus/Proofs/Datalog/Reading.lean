import QueryCalculus.Datalog.Parser

/-!
# What a reading computation accepts

- `Phrases` : a language of token sequences in which every phrase has values
- `Reads` : a computation accepts the phrases of a language in front of any other tokens
- `Separated` : phrases with commas between them
- `Reads.bind`, `Reads.next`, `Reads.eat`, `Reads.separated` : languages of composed computations

A computation that reads items up to the last comma looks one token ahead, so it has a language only
together with the token that closes the items.
-/

namespace QueryCalculus
namespace Datalog

variable {α β : Type}

/-- Token sequences with the values they are read as. -/
abbrev Phrases (α : Type) := List Token → α → Prop

/-- The computation succeeds on the tokens that start with a phrase, and leaves what follows it. -/
def Reads (m : Reading α) (language : Phrases α) : Prop :=
  ∀ tokens a rest, m.run tokens = .ok (a, rest) ↔
    ∃ front, tokens = front ++ rest ∧ language (front.map Lexeme.token) a

/-- One or more phrases with commas between them. -/
inductive Separated (language : Phrases α) : Phrases (List α)
  | one {ts : List Token} {a : α} : language ts a → Separated language ts [a]
  | cons {ts us : List Token} {a : α} {as : List α} :
      language ts a → Separated language us as → Separated language (ts ++ .comma :: us) (a :: as)

namespace Separated

variable {P Q : Phrases α} {ts : List Token} {as : List α}

theorem ne_nil (phrases : Separated P ts as) : as ≠ [] := by
  cases phrases <;> simp

theorem exists_phrase (phrases : Separated P ts as) {a : α} (ha : a ∈ as) :
    ∃ us, us ⊆ ts ∧ P us a := by
  induction phrases with
  | one phrase =>
    cases List.mem_singleton.1 ha
    exact ⟨_, List.Subset.refl _, phrase⟩
  | @cons ts us _ _ phrase _ ih =>
    rcases List.mem_cons.1 ha with rfl | later
    · exact ⟨ts, List.subset_append_left _ _, phrase⟩
    · rcases ih later with ⟨vs, within, found⟩
      have behind : us ⊆ ts ++ .comma :: us :=
        List.subset_append_of_subset_right ts (List.subset_cons_self _ us)
      exact ⟨vs, List.Subset.trans within behind, found⟩

theorem mono (phrases : Separated P ts as) (imp : ∀ us, ∀ a ∈ as, P us a → Q us a) :
    Separated Q ts as := by
  induction phrases with
  | one phrase => exact .one (imp _ _ List.mem_cons_self phrase)
  | cons phrase _ ih =>
    exact .cons (imp _ _ List.mem_cons_self phrase)
      (ih fun us a ha => imp us a (List.mem_cons_of_mem _ ha))

theorem starts (phrases : Separated P ts as) (token : Token)
    (first : ∀ us a, P us a → ∃ t vs, us = t :: vs ∧ t ≠ token) :
    ∃ t vs, ts = t :: vs ∧ t ≠ token := by
  cases phrases with
  | one phrase => exact first _ _ phrase
  | cons phrase _ =>
    rcases first _ _ phrase with ⟨t, vs, rfl, other⟩
    exact ⟨t, _, rfl, other⟩

end Separated

theorem run_bind_ok {m : Reading α} {k : α → Reading β} {tokens rest : List Lexeme} {b : β} :
    (m >>= k).run tokens = .ok (b, rest) ↔
      ∃ a mid, m.run tokens = .ok (a, mid) ∧ (k a).run mid = .ok (b, rest) := by
  rw [StateT.run_bind]
  cases m.run tokens with
  | error e => exact ⟨nofun, nofun⟩
  | ok result =>
    refine ⟨fun h => ⟨result.1, result.2, rfl, h⟩, ?_⟩
    rintro ⟨a, mid, ⟨⟩, second⟩
    exact second

theorem eat_same {token : Token} {l : Lexeme} {rest : List Lexeme} (same : l.token = token) :
    (eat token).run (l :: rest) = .ok (true, rest) := by
  show (if l.token = token then _ else _ : Reading Bool).run (l :: rest) = _
  rw [if_pos same]
  rfl

theorem eat_other {token : Token} {l : Lexeme} {rest : List Lexeme} (other : l.token ≠ token) :
    (eat token).run (l :: rest) = .ok (false, l :: rest) := by
  show (if l.token = token then _ else _ : Reading Bool).run (l :: rest) = _
  rw [if_neg other]
  rfl

theorem eat_ok {token : Token} {tokens rest : List Lexeme} {found : Bool}
    (read : (eat token).run tokens = .ok (found, rest)) :
    (∃ l, tokens = l :: rest ∧ found = true ∧ l.token = token) ∨ tokens = rest ∧ found = false := by
  cases tokens with
  | nil =>
    cases read
    exact .inr ⟨rfl, rfl⟩
  | cons l tokens =>
    by_cases same : l.token = token
    · cases (eat_same same).symm.trans read
      exact .inl ⟨l, rfl, rfl, same⟩
    · cases (eat_other same).symm.trans read
      exact .inr ⟨rfl, rfl⟩

namespace Reads

variable {m : Reading α} {k : α → Reading β} {P Q : Phrases α} {R : α → Phrases β}

theorem sound (h : Reads m P) {tokens rest : List Lexeme} {a : α}
    (read : m.run tokens = .ok (a, rest)) :
    ∃ front, tokens = front ++ rest ∧ P (front.map Lexeme.token) a :=
  (h tokens a rest).1 read

theorem complete (h : Reads m P) {front : List Lexeme} {a : α}
    (phrase : P (front.map Lexeme.token) a) (rest : List Lexeme) :
    m.run (front ++ rest) = .ok (a, rest) :=
  (h _ a rest).2 ⟨front, rfl, phrase⟩

theorem congr (h : Reads m P) (same : ∀ ts a, P ts a ↔ Q ts a) : Reads m Q := by
  intro tokens a rest
  rw [h tokens a rest]
  simp only [same]

/-! ## Computations without tokens -/

theorem pure (a : α) : Reads (Pure.pure a) fun ts b => ts = [] ∧ b = a := by
  intro tokens b rest
  constructor
  · intro h
    cases h
    exact ⟨[], rfl, rfl, rfl⟩
  · rintro ⟨front, rfl, empty, rfl⟩
    rw [List.map_eq_nil_iff.1 empty]
    rfl

theorem throw (e : ParseError) : Reads (MonadExcept.throw e : Reading α) fun _ _ => False := by
  intro tokens a rest
  exact ⟨nofun, nofun⟩

theorem lift (x : Except ParseError α) :
    Reads (liftM x) fun ts a => ts = [] ∧ x = .ok a := by
  cases x with
  | error e => exact (throw e).congr (by simp)
  | ok value => exact (pure value).congr (by simp [eq_comm])

/-! ## One computation after another -/

theorem bind (hm : Reads m P) (hk : ∀ a, Reads (k a) (R a)) :
    Reads (m >>= k) fun ts b => ∃ us vs a, ts = us ++ vs ∧ P us a ∧ R a vs b := by
  intro tokens b rest
  constructor
  · intro read
    rcases run_bind_ok.1 read with ⟨a, mid, first, second⟩
    rcases hm.sound first with ⟨front, rfl, hfront⟩
    rcases (hk a).sound second with ⟨back, rfl, hback⟩
    exact ⟨front ++ back, (List.append_assoc _ _ _).symm, _, _, a, List.map_append, hfront, hback⟩
  · rintro ⟨both, rfl, us, vs, a, split, hus, hvs⟩
    rcases List.map_eq_append_iff.1 split with ⟨front, back, rfl, rfl, rfl⟩
    rw [List.append_assoc]
    exact run_bind_ok.2 ⟨a, back ++ rest, hm.complete hus _, (hk a).complete hvs rest⟩

theorem next {expected : Expectation} {k : Lexeme → Reading β} {R : Token → Phrases β}
    (hk : ∀ l, Reads (k l) (R l.token)) :
    Reads (Datalog.next expected >>= k) fun ts b => ∃ t us, ts = t :: us ∧ R t us b := by
  intro tokens b rest
  constructor
  · intro read
    rcases run_bind_ok.1 read with ⟨l, mid, first, second⟩
    cases tokens with
    | nil => cases first
    | cons l tokens =>
      cases first
      rcases (hk l).sound second with ⟨front, rfl, hfront⟩
      exact ⟨l :: front, rfl, l.token, _, rfl, hfront⟩
  · rintro ⟨front, rfl, t, us, split, hus⟩
    rcases List.map_eq_cons_iff.1 split with ⟨l, back, rfl, rfl, rfl⟩
    exact run_bind_ok.2 ⟨l, back ++ rest, rfl, (hk l).complete hus rest⟩

/-- A computation behind a token of any kind. -/
theorem skip {m : Reading β} {P : Phrases β} (h : Reads m P) (expected : Expectation) :
    Reads (Datalog.next expected >>= fun _ => m) fun ts b => ∃ t us, ts = t :: us ∧ P us b :=
  next (R := fun _ => P) fun _ => h

theorem expect (token : Token) (expected : Expectation) :
    Reads (Datalog.expect token expected) fun ts _ => ts = [token] := by
  have rest (l : Lexeme) :
      Reads (if l.token ≠ token then MonadExcept.throw (l.unexpected expected) else Pure.pure ())
        fun us _ => us = [] ∧ l.token = token := by
    by_cases same : l.token = token
    · rw [if_neg (not_not_intro same)]
      exact (pure ()).congr fun us _ => by simp [same]
    · rw [if_pos same]
      exact (throw _).congr fun us _ => by simp [same]
  refine (next (R := fun t us _ => us = [] ∧ t = token) rest).congr fun ts _ => ?_
  constructor
  · rintro ⟨t, us, rfl, rfl, rfl⟩
    rfl
  · rintro rfl
    exact ⟨token, [], rfl, rfl, rfl⟩

/-- A computation behind a fixed token. -/
theorem after {m : Reading β} {P : Phrases β} (h : Reads m P) (token : Token)
    (expected : Expectation) :
    Reads (Datalog.expect token expected >>= fun _ => m)
      fun ts b => ∃ us, ts = token :: us ∧ P us b := by
  refine (bind (expect token expected) fun _ => h).congr fun ts b => ?_
  constructor
  · rintro ⟨_, us, _, rfl, rfl, hus⟩
    exact ⟨us, rfl, hus⟩
  · rintro ⟨us, rfl, hus⟩
    exact ⟨[token], us, (), rfl, rfl, hus⟩

/-- The token in front decides, so a phrase of the second language has to start with another one. -/
theorem eat {token : Token} {present absent : Reading β} {P Q : Phrases β} (hp : Reads present P)
    (hq : Reads absent Q) (starts : ∀ ts b, Q ts b → ∃ t us, ts = t :: us ∧ t ≠ token) :
    Reads (Datalog.eat token >>= fun found => if found = true then present else absent)
      fun ts b => (∃ us, ts = token :: us ∧ P us b) ∨ Q ts b := by
  intro tokens b rest
  constructor
  · intro read
    rcases run_bind_ok.1 read with ⟨found, mid, first, second⟩
    rcases eat_ok first with ⟨l, rfl, rfl, rfl⟩ | ⟨rfl, rfl⟩
    · rcases hp.sound second with ⟨front, rfl, hfront⟩
      exact ⟨l :: front, rfl, .inl ⟨_, rfl, hfront⟩⟩
    · rcases hq.sound second with ⟨front, rfl, hfront⟩
      exact ⟨front, rfl, .inr hfront⟩
  · rintro ⟨front, rfl, ⟨us, split, hus⟩ | hfront⟩
    · rcases List.map_eq_cons_iff.1 split with ⟨l, back, rfl, same, rfl⟩
      exact run_bind_ok.2 ⟨true, back ++ rest, eat_same same, hp.complete hus rest⟩
    · rcases starts _ _ hfront with ⟨t, us, split, other⟩
      rcases List.map_eq_cons_iff.1 split with ⟨l, back, rfl, rfl, rfl⟩
      exact run_bind_ok.2 ⟨false, _, eat_other other, hq.complete hfront rest⟩

/-! ## Lists of items -/

theorem items_sound {item : Reading α} (hitem : Reads item P) {more : Nat}
    {tokens rest : List Lexeme} {as : List α}
    (read : (items item more).run tokens = .ok (as, rest)) :
    ∃ front, tokens = front ++ rest ∧ Separated P (front.map Lexeme.token) as := by
  induction more generalizing tokens as with
  | zero =>
    rcases run_bind_ok.1 read with ⟨a, mid, first, ⟨⟩⟩
    rcases hitem.sound first with ⟨front, rfl, hfront⟩
    exact ⟨front, rfl, .one hfront⟩
  | succ more ih =>
    rcases run_bind_ok.1 read with ⟨a, mid, first, behind⟩
    rcases hitem.sound first with ⟨front, rfl, hfront⟩
    rcases run_bind_ok.1 behind with ⟨found, _, comma, later⟩
    -- behind a comma there are more items, and without one this was the last
    rcases eat_ok comma with ⟨l, rfl, rfl, same⟩ | ⟨rfl, rfl⟩
    · rcases run_bind_ok.1 later with ⟨bs, _, others, ⟨⟩⟩
      rcases ih others with ⟨back, rfl, hback⟩
      refine ⟨front ++ l :: back, by simp, ?_⟩
      rw [List.map_append, List.map_cons, same]
      exact .cons hfront hback
    · cases later
      exact ⟨front, rfl, .one hfront⟩

/-- There are at least as many tokens as commas, so the bound on the items is never reached. -/
theorem items_complete {item : Reading α} (hitem : Reads item P) {closer : Lexeme}
    (closes : closer.token ≠ .comma) {more : Nat} {front : List Lexeme} {ts : List Token}
    {as : List α} (phrases : Separated P ts as) (spelled : front.map Lexeme.token = ts)
    (enough : front.length ≤ more) (rest : List Lexeme) :
    (items item more).run (front ++ closer :: rest) = .ok (as, closer :: rest) := by
  induction phrases generalizing front more with
  | @one ts a phrase =>
    subst spelled
    have first := hitem.complete phrase (closer :: rest)
    cases more with
    | zero => exact run_bind_ok.2 ⟨a, closer :: rest, first, rfl⟩
    | succ more =>
      exact run_bind_ok.2 ⟨a, closer :: rest, first,
        run_bind_ok.2 ⟨false, closer :: rest, eat_other closes, rfl⟩⟩
  | @cons ts us a as phrase _ ih =>
    -- The item is followed by a comma, so the reader goes on.
    rcases List.map_eq_append_iff.1 spelled with ⟨first, behind, rfl, rfl, split⟩
    rcases List.map_eq_cons_iff.1 split with ⟨comma, back, rfl, same, rfl⟩
    rw [List.append_assoc]
    cases more with
    | zero => simp at enough
    | succ more =>
      -- The comma is a token of its own and pays for the item behind it.
      have bound : back.length ≤ more := by
        simp only [List.length_append, List.length_cons] at enough
        omega
      exact run_bind_ok.2 ⟨a, _, hitem.complete phrase _, run_bind_ok.2 ⟨true, _, eat_same same,
        run_bind_ok.2 ⟨as, _, ih rfl bound, rfl⟩⟩⟩

/-- Items are read up to a token that is no comma. -/
theorem separated {item : Reading α} {k : List α → Reading β} {R : List α → Phrases β}
    (hitem : Reads item P) {closer : Token} (closes : closer ≠ .comma) (expected : Expectation)
    (hk : ∀ as, Reads (k as) (R as)) :
    Reads (Datalog.separated item >>= fun as => Datalog.expect closer expected >>= fun _ => k as)
      fun ts b => ∃ us as vs, ts = us ++ closer :: vs ∧ Separated P us as ∧ R as vs b := by
  have close (as : List α) := (hk as).after closer expected
  intro tokens b rest
  constructor
  · intro read
    rcases run_bind_ok.1 read with ⟨as, mid, listed, behind⟩
    rcases run_bind_ok.1 listed with ⟨_, _, ⟨⟩, listed'⟩
    rcases items_sound hitem listed' with ⟨front, rfl, hfront⟩
    rcases (close as).sound behind with ⟨back, rfl, vs, split, hvs⟩
    refine ⟨front ++ back, (List.append_assoc _ _ _).symm, _, as, vs, ?_, hfront, hvs⟩
    rw [List.map_append, split]
  · rintro ⟨both, rfl, us, as, vs, split, hus, hvs⟩
    rcases List.map_eq_append_iff.1 split with ⟨front, behind, rfl, spelled, split'⟩
    have closed := (close as).complete ⟨vs, split', hvs⟩ rest
    rcases List.map_eq_cons_iff.1 split' with ⟨l, back, rfl, rfl, rfl⟩
    -- there are no more items than tokens, so that the bound on their number is no restriction
    have enough : front.length ≤ (front ++ l :: back ++ rest).length := by simp
    have listed := items_complete hitem closes hus spelled enough (back ++ rest)
    rw [← List.cons_append, ← List.append_assoc] at listed
    exact run_bind_ok.2 ⟨as, _, run_bind_ok.2 ⟨_, _, rfl, listed⟩, closed⟩

end Reads
end Datalog
end QueryCalculus
