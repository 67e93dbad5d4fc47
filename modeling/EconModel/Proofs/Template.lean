import EconModel.Template
import Mathlib.Data.List.Forall2
import Mathlib.Data.List.TakeWhile

/-!
# What a rendered template is

The placeholders of a template are its leftmost occurrences of a name in braces, one behind the
other.  They cut the template into pieces in exactly one way, and its rendering is what these pieces
stand for, in their order.  So a template is rendered in two parts like as a whole, unless a
placeholder lies across the place where it is parted.
-/

namespace EconModel

namespace Template

/-! ## Occurrences of placeholders -/

/-- A letter of the Latin alphabet. -/
def IsLetter (c : Char) : Prop := 'a' ≤ c ∧ c ≤ 'z' ∨ 'A' ≤ c ∧ c ≤ 'Z'

/-- A decimal digit. -/
def IsDigit (c : Char) : Prop := '0' ≤ c ∧ c ≤ '9'

/-- A name that may stand in a placeholder. -/
inductive IsIdentifier : List Char → Prop where
  | intro {start : Char} {rest : List Char} : IsLetter start ∨ start = '_' →
      (∀ c ∈ rest, IsLetter c ∨ IsDigit c ∨ c = '_') → IsIdentifier (start :: rest)

/-- A placeholder stands in a text, between what is before it and what is after it. -/
structure Occurs (text before name after : List Char) : Prop where
  identifier : IsIdentifier name
  text_eq : text = before ++ '{' :: name ++ '}' :: after

/-- A text is cut at its placeholders: at the leftmost one, and then what is after it in the same
way. -/
inductive Cut : List Char → List Piece → Prop where
  | plain {text : List Char} : (∀ before name after, ¬ Occurs text before name after) →
      Cut text (text.map .character)
  | placeholder {text before name after : List Char} {parts : List Piece} :
      Occurs text before name after →
      (∀ before' name' after', Occurs text before' name' after' →
        before.length ≤ before'.length) →
      Cut after parts → Cut text (before.map .character ++ .placeholder name :: parts)

theorem isAlpha_iff {c : Char} : c.isAlpha = true ↔ IsLetter c := by
  have ranges : c.isAlpha =
      (decide ('A' ≤ c ∧ c ≤ 'Z') || (decide ('a' ≤ c) && decide (c ≤ 'z'))) := rfl
  rw [ranges, IsLetter, Bool.or_eq_true, Bool.and_eq_true, decide_eq_true_eq, decide_eq_true_eq,
    decide_eq_true_eq, or_comm]

theorem isDigit_iff {c : Char} : c.isDigit = true ↔ IsDigit c := by
  have range : c.isDigit = (decide ('0' ≤ c) && decide (c ≤ '9')) := rfl
  rw [range, IsDigit, Bool.and_eq_true, decide_eq_true_eq, decide_eq_true_eq]

theorem isNameStart_iff {c : Char} : isNameStart c = true ↔ IsLetter c ∨ c = '_' := by
  rw [isNameStart, Bool.or_eq_true, isAlpha_iff, decide_eq_true_eq]

theorem isNameChar_iff {c : Char} : isNameChar c = true ↔ IsLetter c ∨ IsDigit c ∨ c = '_' := by
  rw [isNameChar, Char.isAlphanum, Bool.or_eq_true, Bool.or_eq_true, isAlpha_iff, isDigit_iff,
    decide_eq_true_eq, or_assoc]

/-- A placeholder is read off the front of a text exactly if one stands there. -/
theorem placeholder?_eq_some_iff {text name rest : List Char} :
    placeholder? text = some (name, rest) ↔ Occurs text [] name rest := by
  constructor
  · intro found
    refine ⟨?_, source_of_placeholder? found ▸ by simp [Piece.source]⟩
    unfold placeholder? at found
    split at found
    · next start text =>
      split at found
      · next starts =>
        split at found
        · cases found
          refine .intro (isNameStart_iff.mp starts) fun c member => ?_
          exact isNameChar_iff.mp (List.mem_takeWhile_imp member)
        · cases found
      · cases found
    · cases found
  · rintro ⟨⟨starts, follows⟩, rfl⟩
    next start follow =>
    have inside : ∀ c ∈ follow, isNameChar c = true := fun c member =>
      isNameChar_iff.mpr (follows c member)
    have ends : ¬ isNameChar '}' = true := by decide
    change placeholder? ('{' :: start :: (follow ++ '}' :: rest)) = _
    rw [placeholder?, if_pos (isNameStart_iff.mpr starts), List.dropWhile_append_of_pos inside,
      List.takeWhile_append_of_pos inside, List.dropWhile_cons_of_neg ends,
      List.takeWhile_cons_of_neg ends, List.append_nil]
    rfl

/-- What is read off the front of a text is read off any longer one. -/
theorem placeholder?_append {text name rest : List Char} (more : List Char)
    (found : placeholder? text = some (name, rest)) :
    placeholder? (text ++ more) = some (name, rest ++ more) := by
  obtain ⟨identifier, text_eq⟩ := placeholder?_eq_some_iff.mp found
  exact placeholder?_eq_some_iff.mpr ⟨identifier, by simp [text_eq]⟩

/-! ## Pieces -/

theorem pieces_of_placeholder? {text name rest : List Char}
    (found : placeholder? text = some (name, rest)) :
    pieces text = .placeholder name :: pieces rest := by
  cases text with
  | nil => cases found
  | cons c text => rw [pieces, found]

theorem pieces_of_none {c : Char} {text : List Char} (absent : placeholder? (c :: text) = none) :
    pieces (c :: text) = .character c :: pieces text := by
  rw [pieces, absent]

theorem Occurs.cons {text before name after : List Char} (occurs : Occurs text before name after)
    (c : Char) : Occurs (c :: text) (c :: before) name after :=
  ⟨occurs.identifier, by simp [occurs.text_eq]⟩

/-- No placeholder starts at a character where none is read off. -/
theorem exists_of_occurs_cons {c : Char} {text before name after : List Char}
    (absent : placeholder? (c :: text) = none) (occurs : Occurs (c :: text) before name after) :
    ∃ before', before = c :: before' ∧ Occurs text before' name after := by
  obtain ⟨identifier, text_eq⟩ := occurs
  cases before with
  | nil =>
      rw [placeholder?_eq_some_iff.mpr ⟨identifier, text_eq⟩] at absent
      cases absent
  | cons first before' =>
      simp only [List.cons_append, List.cons.injEq] at text_eq
      obtain ⟨rfl, text_eq⟩ := text_eq
      exact ⟨before', rfl, identifier, text_eq⟩

theorem Cut.cons {c : Char} {text : List Char} {parts : List Piece}
    (absent : placeholder? (c :: text) = none) (cut : Cut text parts) :
    Cut (c :: text) (.character c :: parts) := by
  cases cut with
  | plain none_occurs =>
      rw [← List.map_cons]
      refine .plain fun before name after occurs => ?_
      obtain ⟨before', rfl, later⟩ := exists_of_occurs_cons absent occurs
      exact none_occurs before' name after later
  | @placeholder _ before name after parts occurs leftmost cut =>
      rw [← List.cons_append, ← List.map_cons]
      refine .placeholder (occurs.cons c) (fun other name' after' found => ?_) cut
      obtain ⟨other, rfl, later⟩ := exists_of_occurs_cons absent found
      exact Nat.succ_le_succ (leftmost other name' after' later)

theorem cut_pieces (text : List Char) : Cut text (pieces text) := by
  induction text using pieces.induct with
  | case1 =>
      rw [pieces]
      refine .plain fun before name after occurs => ?_
      simpa using occurs.text_eq
  | case2 c text name rest found ih =>
      rw [pieces_of_placeholder? found]
      exact .placeholder (placeholder?_eq_some_iff.mp found)
        (fun _ _ _ _ => Nat.zero_le _) ih
  | case3 c text absent ih =>
      rw [pieces_of_none absent]
      exact ih.cons absent

theorem pieces_plain {text : List Char} (plain : ∀ before name after, ¬ Occurs text before name after) :
    pieces text = text.map .character := by
  induction text with
  | nil => rw [pieces, List.map_nil]
  | cons c text ih =>
      cases found : placeholder? (c :: text) with
      | none =>
          rw [pieces_of_none found, List.map_cons,
            ih fun before name after occurs => plain (c :: before) name after (occurs.cons c)]
      | some placeholder =>
          exact absurd (placeholder?_eq_some_iff.mp found) (plain [] placeholder.1 placeholder.2)

theorem pieces_of_leftmost {text before name after : List Char}
    (occurs : Occurs text before name after)
    (leftmost : ∀ before' name' after', Occurs text before' name' after' →
      before.length ≤ before'.length) :
    pieces text = before.map .character ++ .placeholder name :: pieces after := by
  induction before generalizing text with
  | nil => exact pieces_of_placeholder? (placeholder?_eq_some_iff.mpr occurs)
  | cons c before ih =>
      obtain ⟨identifier, rfl⟩ := occurs
      cases found : placeholder? (c :: (before ++ '{' :: name ++ '}' :: after)) with
      | none =>
          refine (pieces_of_none found).trans (congrArg _ (ih ⟨identifier, rfl⟩ ?_))
          intro before' name' after' occurs
          exact Nat.le_of_succ_le_succ (leftmost (c :: before') name' after' (occurs.cons c))
      | some placeholder =>
          have front := leftmost [] placeholder.1 placeholder.2 (placeholder?_eq_some_iff.mp found)
          cases front

/-- A text is cut in exactly one way, and the scan finds it. -/
theorem cut_iff {text : List Char} {parts : List Piece} : Cut text parts ↔ parts = pieces text := by
  constructor
  · intro cut
    induction cut with
    | plain plain => exact (pieces_plain plain).symm
    | placeholder occurs leftmost _ ih => rw [pieces_of_leftmost occurs leftmost, ih]
  · rintro rfl
    exact cut_pieces text

/-! ## Seams -/

/-- A placeholder of a text that is put together from two lies in both. -/
def SpansSeam (left right : List Char) : Prop :=
  ∃ before name after, Cut (left ++ right) (before ++ .placeholder name :: after) ∧
    (before.flatMap Piece.source).length < left.length ∧
    left.length < ((before ++ [.placeholder name]).flatMap Piece.source).length

theorem spansSeam_iff {left right : List Char} : SpansSeam left right ↔
    ∃ before name after, before ++ .placeholder name :: after = pieces (left ++ right) ∧
      (before.flatMap Piece.source).length < left.length ∧
      left.length < ((before ++ [.placeholder name]).flatMap Piece.source).length := by
  simp only [SpansSeam, cut_iff]

/-- A seam that is spanned behind the first piece of the left part is spanned. -/
theorem SpansSeam.cons {left rest right : List Char} {piece : Piece}
    (pieces_eq : pieces (left ++ right) = piece :: pieces (rest ++ right))
    (source_eq : piece.source.length + rest.length = left.length)
    (spans : SpansSeam rest right) : SpansSeam left right := by
  obtain ⟨before, name, after, rest_eq, starts, ends⟩ := spansSeam_iff.mp spans
  refine spansSeam_iff.mpr ⟨piece :: before, name, after, ?_, ?_, ?_⟩
  · rw [pieces_eq, ← rest_eq, List.cons_append]
  · rw [List.flatMap_cons, List.length_append]
    omega
  · rw [List.cons_append, List.flatMap_cons, List.length_append]
    omega

/-- Where no placeholder lies across the seam, the pieces of the whole are those of its parts. -/
theorem pieces_append {left right : List Char} (apart : ¬ SpansSeam left right) :
    pieces (left ++ right) = pieces left ++ pieces right := by
  induction left using pieces.induct with
  | case1 => rw [pieces, List.nil_append, List.nil_append]
  | case2 c text name rest found ih =>
      have whole := pieces_of_placeholder? (placeholder?_append right found)
      have source_eq := congrArg List.length (source_of_placeholder? found)
      rw [List.length_append] at source_eq
      rw [whole, pieces_of_placeholder? found, List.cons_append,
        ih fun spans => apart (spans.cons whole source_eq.symm)]
  | case3 c text absent ih =>
      cases found : placeholder? (c :: text ++ right) with
      | none =>
          have whole : pieces (c :: text ++ right) = .character c :: pieces (text ++ right) :=
            pieces_of_none found
          rw [whole, pieces_of_none absent, List.cons_append, ih fun spans =>
            apart (spans.cons whole (by simp [Piece.source, Nat.add_comm]))]
      | some placeholder =>
          obtain ⟨name, rest⟩ := placeholder
          -- here a placeholder is read off the whole, but none off the left part: if it ended in
          -- the left part it would be read off there too, so it lies across the seam
          exfalso
          by_cases fits : (Piece.placeholder name).source.length ≤ (c :: text).length
          · obtain ⟨tail, left_eq⟩ := List.prefix_of_prefix_length_le
              ⟨rest, (source_of_placeholder? found).symm⟩ (List.prefix_append (c :: text) right) fits
            have here : Occurs (c :: text) [] name tail :=
              ⟨(placeholder?_eq_some_iff.mp found).identifier, by simp [← left_eq, Piece.source]⟩
            rw [placeholder?_eq_some_iff.mpr here] at absent
            cases absent
          · refine apart (spansSeam_iff.mpr ⟨[], name, pieces rest, ?_, by simp, by simpa using fits⟩)
            exact (pieces_of_placeholder? found).symm

/-- No placeholder lies across a seam at which two pieces meet. -/
theorem not_spansSeam_of_pieces {left right : List Char} {front back : List Piece}
    (pieces_eq : pieces (left ++ right) = front ++ back)
    (source_eq : front.flatMap Piece.source = left) : ¬ SpansSeam left right := by
  intro spans
  obtain ⟨before, name, after, same, starts, ends⟩ := spansSeam_iff.mp spans
  rw [pieces_eq, List.append_eq_append_iff] at same
  rw [← source_eq] at starts ends
  -- the pieces meet either in front of the placeholder, or behind it
  rcases same with ⟨between, rfl, same⟩ | ⟨between, rfl, _⟩
  · cases between with
    | nil => simp at starts
    | cons first between =>
        simp only [List.cons_append, List.cons.injEq] at same
        obtain ⟨rfl, _⟩ := same
        simp only [List.flatMap_append, List.flatMap_cons, List.flatMap_nil, List.length_append,
          List.append_nil] at ends
        omega
  · rw [List.flatMap_append, List.length_append] at starts
    omega

end Template

/-! ## Rendering -/

namespace Context

open Template

/-- A name in a message has no value: it is not that of the timestep, and its evaluation fails. -/
def Unresolved (context : Context) (name : List Char) : Prop :=
  name ≠ ['t'] ∧ ∃ error, (context.eval (.ident (String.ofList name))).result = .error error

/-- What a piece of a template stands for. -/
inductive Shows (context : Context) : Piece → List Char → Prop where
  | character (c : Char) : Shows context (.character c) [c]
  | timestep : Shows context (.placeholder ['t']) (Nat.toDigits 10 context.timestep)
  | value {name : List Char} {value : Value} : name ≠ ['t'] →
      (context.eval (.ident (String.ofList name))).result = .ok value →
      Shows context (.placeholder name) (Template.value value).toList
  | unresolved {name : List Char} : context.Unresolved name →
      Shows context (.placeholder name) ('{' :: name ++ ['}'])

variable {context : Context}

theorem result_eval_ident (name : String) :
    (context.eval (.ident name)).result = context.resolve name := by
  rw [eval]
  rfl

theorem fill_timestep :
    (Piece.placeholder ['t']).fill context.templateValue? = Nat.toDigits 10 context.timestep := by
  have value : context.templateValue? (String.ofList ['t']) =
      some (String.ofList (Nat.toDigits 10 context.timestep)) := rfl
  rw [Piece.fill, value]
  exact String.toList_ofList

theorem templateValue?_eq {name : List Char} (other : name ≠ ['t']) :
    context.templateValue? (String.ofList name) =
      (context.eval (.ident (String.ofList name))).result.toOption.map Template.value := by
  have distinct : String.ofList name ≠ "t" := fun equal =>
    other (String.ofList_injective equal)
  rw [templateValue?, if_neg distinct, result_eval_ident]
  cases context.resolve (String.ofList name) with
  | ok value => rfl
  | error error => rfl

/-- A piece stands for one text, which is the one that is put in. -/
theorem shows_iff {piece : Piece} {text : List Char} :
    context.Shows piece text ↔ text = piece.fill context.templateValue? := by
  constructor
  · rintro (_ | _ | ⟨other, evaluates⟩ | ⟨other, error, evaluates⟩)
    · rfl
    · exact fill_timestep.symm
    · rw [Piece.fill, templateValue?_eq other, evaluates]
      rfl
    · rw [Piece.fill, templateValue?_eq other, evaluates]
      rfl
  · rintro rfl
    cases piece with
    | character c => exact .character c
    | placeholder name =>
        by_cases timestep : name = ['t']
        · subst timestep
          rw [fill_timestep]
          exact .timestep
        · rw [Piece.fill, templateValue?_eq timestep]
          cases evaluates : (context.eval (.ident (String.ofList name))).result with
          | ok value => exact .value timestep evaluates
          | error error => exact .unresolved ⟨timestep, error, evaluates⟩

theorem forall₂_shows_iff {parts : List Piece} {shown : List (List Char)} :
    List.Forall₂ context.Shows parts shown ↔
      shown = parts.map (Piece.fill context.templateValue?) := by
  induction parts generalizing shown with
  | nil => rw [List.forall₂_nil_left_iff, List.map_nil]
  | cons piece parts ih =>
      rw [List.forall₂_cons_left_iff, List.map_cons]
      simp only [shows_iff, ih]
      constructor
      · rintro ⟨text, shown, rfl, rfl, rfl⟩
        rfl
      · rintro rfl
        exact ⟨_, _, rfl, rfl, rfl⟩

theorem toList_render (template : String) : (context.render template).toList =
    (pieces template.toList).flatMap (Piece.fill context.templateValue?) := by
  rw [render, fill, String.toList_ofList]

theorem fill_of_unresolved {name : List Char} (unresolved : context.Unresolved name) :
    (Piece.placeholder name).fill context.templateValue? = (Piece.placeholder name).source :=
  (shows_iff.mp (.unresolved unresolved)).symm

theorem render_of_unresolved {template : String}
    (unresolved : ∀ name, .placeholder name ∈ pieces template.toList → context.Unresolved name) :
    context.render template = template := by
  have stays : ∀ piece ∈ pieces template.toList,
      piece.fill context.templateValue? = piece.source := by
    intro piece member
    cases piece with
    | character c => rfl
    | placeholder name => exact fill_of_unresolved (unresolved name member)
  rw [← String.toList_inj, toList_render, List.flatMap_def, List.map_congr_left stays,
    ← List.flatMap_def, flatMap_source_pieces]

theorem render_append {left right : String} (apart : ¬ SpansSeam left.toList right.toList) :
    context.render (left ++ right) = context.render left ++ context.render right := by
  rw [← String.toList_inj, String.toList_append, toList_render, toList_render, toList_render,
    String.toList_append, pieces_append apart, List.flatMap_append]

/-- A template is rendered piece by piece: it is cut in one way at its leftmost placeholders, and
its rendering is what the pieces stand for, in their order.  It stays as it is where no name in it
has a value, and two templates are rendered together like apart where no placeholder lies across
the seam. -/
theorem render_exact (context : Context) :
    (∀ template : String, ∃ parts : List Piece,
      (∀ other, Cut template.toList other ↔ other = parts) ∧
        ∀ text : String, text = context.render template ↔
          ∃ shown, List.Forall₂ context.Shows parts shown ∧ text.toList = shown.flatten) ∧
      (∀ (template : String) (parts : List Piece), Cut template.toList parts →
        (∀ name, .placeholder name ∈ parts → context.Unresolved name) →
          context.render template = template) ∧
      ∀ left right : String, ¬ SpansSeam left.toList right.toList →
        context.render (left ++ right) = context.render left ++ context.render right := by
  refine ⟨fun template => ⟨pieces template.toList, fun _ => cut_iff, fun text => ?_⟩, ?_,
    fun left right => render_append⟩
  · rw [← String.toList_inj, toList_render, List.flatMap_def]
    constructor
    · intro text_eq
      exact ⟨_, forall₂_shows_iff.mpr rfl, text_eq⟩
    · rintro ⟨shown, shows, text_eq⟩
      rw [text_eq, forall₂_shows_iff.mp shows]
  · intro template parts cut unresolved
    rw [cut_iff] at cut
    subst cut
    exact render_of_unresolved unresolved

/-- A context at the second timestep, where the value of `cash` is the text `{t}`. -/
def bracedContext : Context where
  environment :=
    { parameters := Bindings.empty.insert "cash" (.text "\x7bt\x7d")
      scalars := .empty
      functions := Catalogue.standard.toRegistry
      zeroDivision := .warn }
  state := .initial []
  timestep := 1

/-- The templates are `{2x}{debt}{`, where nothing has a value, and `{{cash}} ` in front of `{t}`,
which are rendered as `{{t}} ` and `1`: a value is not scanned for placeholders. -/
theorem render_exact_braced :
    ((∀ name, .placeholder name ∈ pieces "\x7b2x\x7d\x7bdebt\x7d\x7b".toList → bracedContext.Unresolved name) ∧
        bracedContext.render "\x7b2x\x7d\x7bdebt\x7d\x7b" = "\x7b2x\x7d\x7bdebt\x7d\x7b") ∧
      (¬ SpansSeam "\x7b\x7bcash\x7d\x7d ".toList "\x7bt\x7d".toList ∧
        bracedContext.render ("\x7b\x7bcash\x7d\x7d " ++ "\x7bt\x7d") =
          bracedContext.render "\x7b\x7bcash\x7d\x7d " ++ bracedContext.render "\x7bt\x7d") ∧
      bracedContext.render "\x7b\x7bcash\x7d\x7d \x7bt\x7d" = "\x7b\x7bt\x7d\x7d 1" := by
  obtain ⟨_, stays, joins⟩ := render_exact bracedContext
  have unresolved : ∀ name, .placeholder name ∈ pieces "\x7b2x\x7d\x7bdebt\x7d\x7b".toList →
      bracedContext.Unresolved name := by
    have pieces_eq : pieces "\x7b2x\x7d\x7bdebt\x7d\x7b".toList =
        "\x7b2x\x7d".toList.map .character ++ [.placeholder "debt".toList, .character '{'] := by
      decide +kernel
    intro name member
    rw [pieces_eq] at member
    have name_eq : name = "debt".toList := by simpa using member
    subst name_eq
    exact ⟨by decide, .unknownIdentifier "debt", rfl⟩
  have apart : ¬ SpansSeam "\x7b\x7bcash\x7d\x7d ".toList "\x7bt\x7d".toList := by
    have pieces_eq : pieces ("\x7b\x7bcash\x7d\x7d ".toList ++ "\x7bt\x7d".toList) =
        [.character '{', .placeholder "cash".toList, .character '}', .character ' '] ++
          [.placeholder ['t']] := by
      decide +kernel
    exact not_spansSeam_of_pieces pieces_eq (by decide)
  exact ⟨⟨unresolved, stays _ _ (cut_pieces _) unresolved⟩, ⟨apart, joins _ _ apart⟩,
    by decide +kernel⟩

end Context

end EconModel
