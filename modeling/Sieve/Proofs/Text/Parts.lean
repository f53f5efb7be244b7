import Mathlib.Data.List.Infix
import Sieve.Text.Casing

/-!
# Lower case of a part of a text

A text that stands in another has there the lower-case form that it has alone, but for its `Σ`s: a letter
with case that adjoins it can turn the form of one that is the first or the last of its letters.

* `lowercaseBetween`: the lower-case form of a text between two others;
* `Kept`: all `Σ`s of a text have the forms that they have alone.  They do where no letter with case adjoins
  it (`kept_of_apart`);
* `Loose`: a `Σ` whose form depends on what adjoins the text.  There is always a letter that turns it
  (`exists_turned`), and a text without a loose `Σ` is kept everywhere (`kept_of_not_loose`);
* `occursIn_iff`: the search for a text in another.
-/

namespace Sieve.Text

variable {before after cs : List Char}

/-- The search finds a text just if it stands somewhere in the other. -/
theorem occursIn_iff (needle cs : List Char) : occursIn needle cs = true ↔ needle <:+: cs := by
  induction cs with
  | nil => rw [occursIn, List.isEmpty_iff, List.infix_nil]
  | cons c cs ih =>
    rw [occursIn, Bool.or_eq_true, List.isPrefixOf_iff_prefix, ih, List.infix_cons_iff]

/-! ### Between two texts -/

/-- The lower-case form of a character between two texts, the one before given backwards. -/
def lowerAt (before : List Char) (c : Char) (after : List Char) : List Char :=
  if c = 'Σ' then [if endsWord before after then 'ς' else 'σ'] else lowerChar c

/-- The lower-case form of a text between two others, the one before given backwards. -/
def lowercaseBetween (before after : List Char) : List Char → List Char
  | [] => []
  | c :: cs => lowerAt before c (cs ++ after) ++ lowercaseBetween (c :: before) after cs

theorem lowercaseAfter_eq (before cs : List Char) : lowercaseAfter before cs = lowercaseBetween before [] cs := by
  induction cs generalizing before with
  | nil => rfl
  | cons c cs ih => rw [lowercaseAfter, ih, lowercaseBetween, List.append_nil, lowerAt]

theorem lowercase_eq (cs : List Char) : lowercase cs = lowercaseBetween [] [] cs := lowercaseAfter_eq [] cs

theorem lowercaseBetween_append (before after cs ds : List Char) :
    lowercaseBetween before after (cs ++ ds) =
      lowercaseBetween before (ds ++ after) cs ++ lowercaseBetween (cs.reverse ++ before) after ds := by
  induction cs generalizing before with
  | nil => rfl
  | cons c cs ih =>
    rw [List.cons_append, lowercaseBetween, ih, lowercaseBetween, List.append_assoc, List.append_assoc,
      List.reverse_cons, List.append_assoc, List.singleton_append]

/-- The lower-case form of a text holds those of its parts, each as it is where it stands. -/
theorem lowercase_append (a n b : List Char) : lowercase (a ++ n ++ b) =
    lowercaseBetween [] (n ++ b) a ++ lowercaseBetween a.reverse b n ++
      lowercaseBetween (a ++ n).reverse [] b := by
  rw [lowercase_eq, lowercaseBetween_append, lowercaseBetween_append, List.append_nil, List.append_nil,
    List.append_nil]

/-- A text has one form between different texts if all its `Σ`s have. -/
theorem lowercaseBetween_congr {before' after' : List Char} (h : ∀ p q, cs = p ++ 'Σ' :: q →
      endsWord (p.reverse ++ before) (q ++ after) = endsWord (p.reverse ++ before') (q ++ after')) :
    lowercaseBetween before after cs = lowercaseBetween before' after' cs := by
  induction cs generalizing before before' with
  | nil => rfl
  | cons c cs ih =>
    have hhead : lowerAt before c (cs ++ after) = lowerAt before' c (cs ++ after') := by
      unfold lowerAt
      split
      next hc =>
        have hends : endsWord before (cs ++ after) = endsWord before' (cs ++ after') := h [] cs (by rw [hc]; rfl)
        rw [hends]
      next => rfl
    have htail : lowercaseBetween (c :: before) after cs = lowercaseBetween (c :: before') after' cs := by
      refine ih fun p q hcs => ?_
      have hends := h (c :: p) q (by rw [hcs]; rfl)
      rwa [List.reverse_cons, List.append_assoc, List.append_assoc] at hends
    rw [lowercaseBetween, lowercaseBetween, hhead, htail]

/-! ### The letters that adjoin a text -/

/-- What a search meets first is in the first of two texts, unless all of that is passed over. -/
theorem meetsCased_append (cs ds : List Char) :
    meetsCased (cs ++ ds) = if cs.all isIgnorable then meetsCased ds else meetsCased cs := by
  induction cs with
  | nil => rfl
  | cons c cs ih =>
    by_cases hc : isIgnorable c = true
    · have hskip (es : List Char) : meetsCased (c :: es) = meetsCased es := by
        rw [meetsCased, meetsCased, List.dropWhile_cons_of_pos hc]
      rw [List.cons_append, hskip, hskip, ih, List.all_cons, hc, Bool.true_and]
    · have hstop (es : List Char) : meetsCased (c :: es) = isCased c := by
        rw [meetsCased, List.dropWhile_cons_of_neg hc]
      have hall : (c :: cs).all isIgnorable = false := by simp [hc]
      rw [List.cons_append, hstop, hstop, hall]
      rfl

theorem meetsCased_of_all (h : cs.all isIgnorable = true) : meetsCased cs = false := by
  have happend := meetsCased_append cs []
  rwa [List.append_nil, if_pos h] at happend

theorem isIgnorable_sigma : isIgnorable 'Σ' = false := by decide +kernel

/-- A `Σ` is not passed over. -/
theorem not_all_of_sigma (p q : List Char) : (p ++ 'Σ' :: q).all isIgnorable = false := by
  simp [isIgnorable_sigma]

theorem meetsCased_append_of_sigma (p q ds : List Char) :
    meetsCased (p ++ 'Σ' :: q ++ ds) = meetsCased (p ++ 'Σ' :: q) := by
  rw [meetsCased_append, not_all_of_sigma]
  rfl

/-- All `Σ`s of a text that stands between two others have the forms that they have in the text alone. -/
def Kept (a n b : List Char) : Prop :=
  ∀ p q, n = p ++ 'Σ' :: q → endsWord (a ++ p).reverse (q ++ b) = endsWord p.reverse q

/-- A text that is kept has the lower-case form that it has alone. -/
theorem lowercaseBetween_of_kept {a n b : List Char} (h : Kept a n b) :
    lowercaseBetween a.reverse b n = lowercase n := by
  rw [lowercase_eq]
  refine lowercaseBetween_congr fun p q hn => ?_
  rw [← List.reverse_append, h p q hn, List.append_nil, List.append_nil]

/-- Where a text is kept, its lower-case form stands in that of the whole. -/
theorem infix_lowercase_of_kept {a n b : List Char} (h : Kept a n b) :
    lowercase n <:+: lowercase (a ++ n ++ b) := by
  rw [lowercase_append, lowercaseBetween_of_kept h]
  exact List.infix_append _ _ _

theorem kept_of_notMem {n : List Char} (h : 'Σ' ∉ n) (a b : List Char) : Kept a n b := by
  rintro p q rfl
  exact absurd (List.mem_append_cons_self) h

/-- A text is kept where no letter with case adjoins it. -/
theorem kept_of_apart {a b : List Char} (ha : meetsCased a.reverse = false) (hb : meetsCased b = false)
    (n : List Char) : Kept a n b := by
  have happend {cs ds : List Char} (hds : meetsCased ds = false) : meetsCased (cs ++ ds) = meetsCased cs := by
    rw [meetsCased_append, hds]
    split
    next hcs => exact (meetsCased_of_all hcs).symm
    next => rfl
  intro p q _
  rw [endsWord, List.reverse_append, happend ha, happend hb, endsWord]

/-! ### Loose sigmas -/

/-- The form of a `Σ` between two parts of a text, the one before given backwards, depends on what adjoins the
text: no letter with case follows in the text, and either nothing before it counts, or a letter with case is
before it and nothing after it counts. -/
def Loose (before after : List Char) : Prop :=
  meetsCased after = false ∧
    (before.all isIgnorable = true ∨ meetsCased before = true ∧ after.all isIgnorable = true)

instance (before after : List Char) : Decidable (Loose before after) := inferInstanceAs (Decidable (_ ∧ _))

theorem endsWord_append_of_not_loose (h : ¬ Loose before after) (a b : List Char) :
    endsWord (before ++ a) (after ++ b) = endsWord before after := by
  rw [endsWord, endsWord, meetsCased_append, meetsCased_append]
  cases hmeets : meetsCased after with
  | true =>
    have hall : after.all isIgnorable ≠ true := fun hall => by
      rw [meetsCased_of_all hall] at hmeets
      cases hmeets
    rw [if_neg hall]
    simp
  | false =>
    obtain ⟨hbefore, hlast⟩ := not_or.1 fun hor => h ⟨hmeets, hor⟩
    rw [if_neg hbefore]
    cases hcased : meetsCased before with
    | true => rw [if_neg fun hall => hlast ⟨hcased, hall⟩]
    | false => rfl

/-- A text without a loose `Σ` is kept wherever it stands. -/
theorem kept_of_not_loose {n : List Char} (h : ∀ p q, n = p ++ 'Σ' :: q → ¬ Loose p.reverse q) (a b : List Char) :
    Kept a n b := by
  intro p q hn
  rw [List.reverse_append]
  exact endsWord_append_of_not_loose (h p q hn) _ _

/-- The lower-case form of a text with a `Σ`, where no other `Σ` in it has another form than alone. -/
theorem lowercaseBetween_sigma {p q a b : List Char} (hp : a = [] ∨ 'Σ' ∉ p) (hq : b = [] ∨ 'Σ' ∉ q) :
    lowercaseBetween a.reverse b (p ++ 'Σ' :: q) = lowercaseBetween [] ('Σ' :: q) p ++
      (if endsWord (a ++ p).reverse (q ++ b) then 'ς' else 'σ') ::
        lowercaseBetween ('Σ' :: p.reverse) [] q := by
  have hbefore : lowercaseBetween a.reverse ('Σ' :: q ++ b) p = lowercaseBetween [] ('Σ' :: q) p := by
    refine lowercaseBetween_congr fun r s hps => ?_
    have ha : a = [] := hp.resolve_right fun hmem => hmem (hps ▸ List.mem_append_cons_self)
    have hafter := meetsCased_append_of_sigma s q b
    rw [ha, endsWord, endsWord, ← hafter, List.append_assoc]
    rfl
  have hafter : lowercaseBetween ('Σ' :: (p.reverse ++ a.reverse)) b q =
      lowercaseBetween ('Σ' :: p.reverse) [] q := by
    refine lowercaseBetween_congr fun r s hqs => ?_
    have hb : b = [] := hq.resolve_right fun hmem => hmem (hqs ▸ List.mem_append_cons_self)
    have hbefore := meetsCased_append_of_sigma r.reverse p.reverse a.reverse
    rw [hb, endsWord, endsWord, ← hbefore, List.append_assoc]
    rfl
  rw [lowercaseBetween_append, lowercaseBetween, hbefore, hafter, lowerAt, if_pos rfl, List.reverse_append]
  rfl

/-- A row in which one item has been turned into another does not hold the row as it was. -/
theorem not_infix_of_turned {x y : Char} (hyx : y ≠ x) {a b : List Char} (ha : x ∉ a) (hb : x ∉ b)
    (p q : List Char) : ¬ p ++ x :: q <:+: a ++ (p ++ y :: q) ++ b := by
  intro h
  have hcount := h.sublist.count_le x
  simp only [List.count_append, List.count_cons_self, List.count_cons_of_ne hyx,
    List.count_eq_zero_of_not_mem ha, List.count_eq_zero_of_not_mem hb] at hcount
  omega

theorem lowercaseBetween_letter (before after : List Char) : lowercaseBetween before after ['a'] = ['a'] := rfl

/-- Where a letter turns a `Σ`, and no other one, the form that a text has alone is not found. -/
theorem not_infix_of_endsWord_ne {p q a b : List Char} (ha : a = [] ∨ a = ['a'] ∧ 'Σ' ∉ p)
    (hb : b = [] ∨ b = ['a'] ∧ 'Σ' ∉ q) (hne : endsWord (a ++ p).reverse (q ++ b) ≠ endsWord p.reverse q) :
    ¬ lowercase (p ++ 'Σ' :: q) <:+: lowercase (a ++ (p ++ 'Σ' :: q) ++ b) := by
  have halone : lowercase (p ++ 'Σ' :: q) = lowercaseBetween [] ('Σ' :: q) p ++
      (if endsWord p.reverse q then 'ς' else 'σ') :: lowercaseBetween ('Σ' :: p.reverse) [] q := by
    have hsigma := lowercaseBetween_sigma (p := p) (q := q) (a := []) (b := []) (.inl rfl) (.inl rfl)
    rw [List.nil_append, List.append_nil] at hsigma
    exact (lowercase_eq _).trans hsigma
  have hmarks : ∀ c ∈ ['σ', 'ς'], c ∉ lowercaseBetween [] (p ++ 'Σ' :: q ++ b) a ∧
      c ∉ lowercaseBetween (a ++ (p ++ 'Σ' :: q)).reverse [] b := by
    intro c hc
    have hne : c ∉ ['a'] := by
      rcases List.mem_pair.1 hc with rfl | rfl <;> simp
    constructor
    · rcases ha with rfl | ⟨rfl, -⟩
      · exact List.not_mem_nil
      · rwa [lowercaseBetween_letter]
    · rcases hb with rfl | ⟨rfl, -⟩
      · exact List.not_mem_nil
      · rwa [lowercaseBetween_letter]
  rw [lowercase_append, halone, lowercaseBetween_sigma (ha.imp_right And.right) (hb.imp_right And.right)]
  have hform : (if endsWord p.reverse q then 'ς' else 'σ') ∈ ['σ', 'ς'] := by split <;> simp
  refine not_infix_of_turned ?_ (hmarks _ hform).1 (hmarks _ hform).2 _ _
  rw [Bool.eq_not.2 hne]
  cases endsWord p.reverse q <;> simp

theorem notMem_sigma_of_all (h : cs.all isIgnorable = true) : 'Σ' ∉ cs := by
  intro hmem
  obtain ⟨p, q, rfl⟩ := List.append_of_mem hmem
  rw [not_all_of_sigma] at h
  cases h

/-- A letter with case before or after a text turns a loose `Σ` of it, and no other one. -/
theorem exists_turned {p q : List Char} (h : Loose p.reverse q) :
    ∃ a b, ¬ lowercase (p ++ 'Σ' :: q) <:+: lowercase (a ++ (p ++ 'Σ' :: q) ++ b) := by
  have hletter : meetsCased ['a'] = true := by decide +kernel
  obtain ⟨hafter, hall | ⟨hbefore, hall⟩⟩ := h
  · -- it does not end a word alone, and does after the letter
    refine ⟨['a'], [], not_infix_of_endsWord_ne (.inr ⟨rfl, ?_⟩) (.inl rfl) ?_⟩
    · exact fun hmem => notMem_sigma_of_all hall (List.mem_reverse.2 hmem)
    · rw [endsWord, endsWord, List.reverse_append, meetsCased_append, if_pos hall, List.append_nil, hafter,
        meetsCased_of_all hall, List.reverse_singleton, hletter]
      decide
  · -- it ends a word alone, and does not before the letter
    refine ⟨[], ['a'], not_infix_of_endsWord_ne (.inl rfl) (.inr ⟨rfl, notMem_sigma_of_all hall⟩) ?_⟩
    rw [endsWord, endsWord, meetsCased_append q, if_pos hall, List.nil_append, hafter, hbefore, hletter]
    decide

end Sieve.Text
