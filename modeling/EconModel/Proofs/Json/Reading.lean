import EconModel.Proofs.Json.Number
import Mathlib.Data.List.DropRight

/-!
# What is written reads back

`Document.tree` is the syntax tree of a document.  The reader finds it in the text of the document,
whichever way the parts are set apart.  The tree nests as many containers as the document, and where
the document is in order it denotes the document.
-/

namespace EconModel

namespace Json

/-! ## Strings -/

theorem hexValue?_hexDigit :
    ∀ value : Fin 16, hexValue? (Document.hexDigit value) = some ↑value := by
  decide

/-- A control character is named by its code. -/
theorem unit?_control {c : Char} (control : c.toNat < 0x20) :
    unit? '0' '0' (Document.hexDigit (c.toNat / 16)) (Document.hexDigit (c.toNat % 16)) =
      some (.scalar c) := by
  have zero : hexValue? '0' = some 0 := by decide
  have upper := hexValue?_hexDigit ⟨c.toNat / 16, by omega⟩
  have lower := hexValue?_hexDigit ⟨c.toNat % 16, by omega⟩
  have code : ((0 * 16 + 0) * 16 + c.toNat / 16) * 16 + c.toNat % 16 = c.toNat := by omega
  dsimp only at upper lower
  simp only [unit?, zero, upper, lower, Option.bind_eq_bind, Option.bind_some, code]
  rw [if_neg (by omega), if_neg (by omega), Char.ofNat_toNat]

theorem pieces_short {letter c : Char} (named : shortEscape? letter = some c)
    (before : List Piece) (rest : List Char) :
    pieces before ('\\' :: letter :: rest) = pieces (.scalar c :: before) rest := by
  have notUnit : letter ≠ 'u' := by
    rintro rfl
    cases named
  conv_lhs => unfold pieces
  split
  · next same => cases same
  · next same => cases same
  · next same => exact absurd (List.cons.inj (List.cons.inj same).2).1 notUnit
  · next same =>
    obtain ⟨rfl, rfl⟩ := List.cons.inj (List.cons.inj same).2
    rw [named]
  · next escaped same =>
    obtain ⟨rfl, rfl⟩ := List.cons.inj same
    exact (escaped letter rest rfl rfl).elim

theorem pieces_plain {c : Char} (printable : ¬ c.toNat < 0x20) (notQuote : c ≠ '"')
    (notBackslash : c ≠ '\\') (before : List Piece) (rest : List Char) :
    pieces before (c :: rest) = pieces (.scalar c :: before) rest := by
  conv_lhs => unfold pieces
  split
  · next same => cases same
  · next same => exact absurd (List.cons.inj same).1 notQuote
  · next same => exact absurd (List.cons.inj same).1 notBackslash
  · next same => exact absurd (List.cons.inj same).1 notBackslash
  · next same =>
    obtain ⟨rfl, rfl⟩ := List.cons.inj same
    simp [printable, notBackslash]

/-- The reader of a string undoes the escaping of a character. -/
theorem pieces_escape (before : List Piece) (c : Char) (rest : List Char) :
    pieces before (Document.escape c ++ rest) = pieces (.scalar c :: before) rest := by
  unfold Document.escape
  split_ifs with quote backslash backspace feed newline carriage tab control
  · exact pieces_short (by subst quote; rfl) before rest
  · exact pieces_short (by subst backslash; rfl) before rest
  · exact pieces_short (backspace ▸ rfl) before rest
  · exact pieces_short (feed ▸ rfl) before rest
  · exact pieces_short (newline ▸ rfl) before rest
  · exact pieces_short (carriage ▸ rfl) before rest
  · exact pieces_short (tab ▸ rfl) before rest
  · simp only [List.cons_append, List.nil_append, pieces, unit?_control control]
  · exact pieces_plain control quote backslash before rest

theorem pieces_flatMap_escape (chars : List Char) (before : List Piece) (rest : List Char) :
    pieces before (chars.flatMap Document.escape ++ '"' :: rest) =
      some (before.reverse ++ chars.map .scalar, rest) := by
  induction chars generalizing before with
  | nil => simp [pieces]
  | cons c chars ih =>
      rw [List.flatMap_cons, List.append_assoc, pieces_escape, ih]
      simp

theorem assemble?_scalars (chars : List Char) :
    assemble? (chars.map Piece.scalar) = some chars := by
  induction chars with
  | nil => rfl
  | cons c chars ih => rw [List.map_cons, assemble?, ih, Option.map_some]

theorem string?_quote (text : String) (rest : List Char) :
    string? (text.toList.flatMap Document.escape ++ '"' :: rest) = some (some text, rest) := by
  rw [string?, pieces_flatMap_escape]
  simp [assemble?_scalars]

/-! ## Blanks -/

theorem skipBlank_append {lead : List Char} (blank : ∀ c ∈ lead, isBlank c = true)
    (rest : List Char) : skipBlank (lead ++ rest) = skipBlank rest :=
  List.dropWhile_append_of_pos blank

theorem skipBlank_cons {c : Char} (notBlank : isBlank c = false) (rest : List Char) :
    skipBlank (c :: rest) = c :: rest := by
  rw [skipBlank, List.dropWhile_cons, notBlank]
  rfl

namespace Document

/-! ## Trees -/

mutual

/-- The syntax tree of a document. -/
def tree : Document → Json
  | .null => .null
  | .boolean value => .boolean value
  | .number value => .number value.numeral
  | .text value => .string (some value)
  | .list items => .array (trees items)
  | .object members => .object (memberTrees members)

/-- The trees of the items of a list. -/
def trees : List Document → List Json
  | [] => []
  | item :: rest => tree item :: trees rest

/-- The trees of the members of an object. -/
def memberTrees : List (String × Document) → List (Option String × Json)
  | [] => []
  | (key, value) :: rest => (some key, tree value) :: memberTrees rest

end

theorem trees_eq_map (items : List Document) : trees items = items.map tree := by
  induction items with
  | nil => rfl
  | cons item rest ih => rw [trees, ih, List.map_cons]

theorem memberTrees_eq_map (members : List (String × Document)) :
    memberTrees members = members.map fun member => (some member.1, member.2.tree) := by
  induction members with
  | nil => rfl
  | cons member rest ih => rw [memberTrees, ih, List.map_cons]

mutual

/-- How many containers stand inside one another. -/
def depth : Document → ℕ
  | .list items => 1 + depthOfItems items
  | .object members => 1 + depthOfMembers members
  | _ => 0

/-- The greatest depth among some items. -/
def depthOfItems : List Document → ℕ
  | [] => 0
  | item :: rest => max (depth item) (depthOfItems rest)

/-- The greatest depth among the values of some members. -/
def depthOfMembers : List (String × Document) → ℕ
  | [] => 0
  | (_, value) :: rest => max (depth value) (depthOfMembers rest)

end

@[simp]
theorem depth_text (value : String) : (text value).depth = 0 := rfl

@[simp]
theorem depth_boolean (value : Bool) : (boolean value).depth = 0 := rfl

@[simp]
theorem depth_word (value : UInt64) : (word value).depth = 0 := rfl

@[simp]
theorem depth_float (value : Float) : (float value).depth = 0 := by
  rw [float]
  split <;> rfl

theorem depthOfItems_le {items : List Document} {bound : ℕ} :
    depthOfItems items ≤ bound ↔ ∀ item ∈ items, depth item ≤ bound := by
  induction items with
  | nil => simp [depthOfItems]
  | cons item rest ih => rw [depthOfItems, Nat.max_le, ih, List.forall_mem_cons]

theorem depthOfMembers_le {members : List (String × Document)} {bound : ℕ} :
    depthOfMembers members ≤ bound ↔ ∀ member ∈ members, depth member.2 ≤ bound := by
  induction members with
  | nil => simp [depthOfMembers]
  | cons member rest ih => rw [depthOfMembers, Nat.max_le, ih, List.forall_mem_cons]

theorem depth_list_le {items : List Document} {bound : ℕ} :
    (list items).depth ≤ bound + 1 ↔ ∀ item ∈ items, item.depth ≤ bound := by
  rw [depth, Nat.add_comm, Nat.add_le_add_iff_right, depthOfItems_le]

theorem depth_object_le {members : List (String × Document)} {bound : ℕ} :
    (object members).depth ≤ bound + 1 ↔ ∀ member ∈ members, member.2.depth ≤ bound := by
  rw [depth, Nat.add_comm, Nat.add_le_add_iff_right, depthOfMembers_le]

mutual

/-- A tree that was written is sound as far as its containers may be entered. -/
theorem sound_tree : ∀ (document : Document) (nesting : ℕ),
    document.tree.sound nesting = true ↔ document.depth ≤ nesting
  | .null, _ => by simp [tree, sound, depth]
  | .boolean _, _ => by simp [tree, sound, depth]
  | .number value, _ => by simp [tree, sound, depth, value.isSome_float?_numeral]
  | .text _, _ => by simp [tree, sound, depth]
  | .list _, 0 => by simp [tree, sound, depth]
  | .list items, nesting + 1 => by
      rw [tree, sound, soundItems_trees items nesting, depth, Nat.add_comm,
        Nat.add_le_add_iff_right]
  | .object _, 0 => by simp [tree, sound, depth]
  | .object members, nesting + 1 => by
      rw [tree, sound, soundMembers_memberTrees members nesting, depth, Nat.add_comm,
        Nat.add_le_add_iff_right]

theorem soundItems_trees : ∀ (items : List Document) (nesting : ℕ),
    soundItems nesting (trees items) = true ↔ depthOfItems items ≤ nesting
  | [], _ => by simp [trees, soundItems, depthOfItems]
  | item :: rest, nesting => by
      rw [trees, soundItems, Bool.and_eq_true, sound_tree item nesting,
        soundItems_trees rest nesting, depthOfItems, Nat.max_le]

theorem soundMembers_memberTrees : ∀ (members : List (String × Document)) (nesting : ℕ),
    soundMembers nesting (memberTrees members) = true ↔ depthOfMembers members ≤ nesting
  | [], _ => by simp [memberTrees, soundMembers, depthOfMembers]
  | (key, value) :: rest, nesting => by
      rw [memberTrees, soundMembers, Bool.and_eq_true, Bool.and_eq_true, sound_tree value nesting,
        soundMembers_memberTrees rest nesting, depthOfMembers, Nat.max_le, Option.isSome_some,
        eq_self, true_and]

end

/-! ## Back from trees -/

/-- A key above all keys of an ascending list goes to its end. -/
theorem putSorted_above {key : String} {members : List (String × Document)}
    (above : ∀ member ∈ members, member.1 < key) (value : Document) :
    putSorted key value members = members ++ [(key, value)] := by
  induction members with
  | nil => rfl
  | cons member rest ih =>
      rw [List.forall_mem_cons] at above
      rw [putSorted, if_pos above.1, ih above.2, List.cons_append]

mutual

/-- A document in order is denoted by its tree. -/
theorem ofJson?_tree :
    ∀ document : Document, document.Sorted → ofJson? document.tree = some document
  | .null, _ => rfl
  | .boolean _, _ => rfl
  | .number value, _ => by
      rw [tree, ofJson?, Number.ofNumeral?_numeral, Option.map_some]
  | .text _, _ => rfl
  | .list items, items_sorted => by
      rw [tree, ofJson?, ofItems?_trees items items_sorted, Option.map_some]
  | .object members, members_sorted => by
      rw [tree, ofJson?, ofMembers?_memberTrees members [] members_sorted.1 members_sorted.2,
        List.nil_append, Option.map_some]

theorem ofItems?_trees : ∀ items : List Document, SortedItems items →
    ofItems? (trees items) = some items
  | [], _ => rfl
  | item :: rest, items_sorted => by
      rw [trees, ofItems?, ofJson?_tree item items_sorted.1, ofItems?_trees rest items_sorted.2]

theorem ofMembers?_memberTrees : ∀ members before : List (String × Document),
    ((before ++ members).map Prod.fst).Pairwise (· < ·) → SortedMembers members →
    ofMembers? before (memberTrees members) = some (before ++ members)
  | [], before, _, _ => by rw [memberTrees, ofMembers?, List.append_nil]
  | (key, value) :: rest, before, ascending, members_sorted => by
      have above : ∀ member ∈ before, member.1 < key := by
        rw [List.map_append, List.pairwise_append] at ascending
        exact fun member found =>
          ascending.2.2 _ (List.mem_map_of_mem found) key List.mem_cons_self
      simp only [memberTrees, ofMembers?, ofJson?_tree value members_sorted.1]
      rw [putSorted_above above, ofMembers?_memberTrees rest _ (by simpa using ascending)
        members_sorted.2, List.append_assoc, List.singleton_append]

end

/-! ## Reading what is written -/

theorem isBlank_newline (style : Style) (level : ℕ) :
    ∀ c ∈ style.newline level, isBlank c = true := by
  cases style with
  | compact => exact fun c member => (nomatch member)
  | indented =>
      intro c member
      rcases List.mem_cons.mp member with rfl | spaces
      · rfl
      · rw [List.eq_of_mem_replicate spaces]
        rfl

/-- What follows a value ends a number: a comma or a closing bracket, perhaps on a new line. -/
theorem delimits_newline (style : Style) (level : ℕ) {c : Char} (rest : List Char)
    (closes : c = ',' ∨ c = ']' ∨ c = '}') :
    Spelling.Delimits (style.newline level ++ c :: rest) := by
  intro first found
  have closer : first = '\n' ∨ first = ',' ∨ first = ']' ∨ first = '}' := by
    cases style with
    | compact =>
        cases found
        exact .inr closes
    | indented =>
        cases found
        exact .inl rfl
  rcases closer with rfl | rfl | rfl | rfl <;> decide

/-- A spelled number starts with a sign or a digit. -/
theorem exists_chars_eq_cons {spelling : Spelling} (wellFormed : spelling.WellFormed) :
    ∃ c tail, spelling.chars = c :: tail ∧ (c = '-' ∨ c.isDigit = true) := by
  obtain ⟨first, others, whole_eq⟩ := List.exists_cons_of_ne_nil wellFormed.whole.1
  have digit : first.isDigit = true := by
    refine wellFormed.whole.2 first ?_
    rw [whole_eq]
    exact List.mem_cons_self
  rw [Spelling.chars, whole_eq]
  cases spelling.negative with
  | true => exact ⟨'-', _, rfl, .inl rfl⟩
  | false => exact ⟨first, _, rfl, .inr digit⟩

theorem number_start {c : Char} (start : c = '-' ∨ c.isDigit = true) {other : Char}
    (notSign : other ≠ '-') (notDigit : other.isDigit = false) : c ≠ other := by
  rcases start with rfl | digit
  · exact notSign.symm
  · exact Spelling.ne_of_isDigit digit notDigit

/-- A value starts neither with a blank nor with a closing bracket. -/
theorem exists_write_eq_cons (style : Style) (level : ℕ) (document : Document) :
    ∃ c tail, write style level document = c :: tail ∧ isBlank c = false ∧ c ≠ ']' := by
  cases document with
  | null => exact ⟨'n', _, rfl, by decide, by decide⟩
  | boolean value =>
      cases value
      · exact ⟨'f', _, rfl, by decide, by decide⟩
      · exact ⟨'t', _, rfl, by decide, by decide⟩
  | number value =>
      obtain ⟨c, tail, chars_eq, start⟩ := exists_chars_eq_cons value.wellFormed_spelling
      refine ⟨c, tail, ?_, ?_, number_start start (by decide) (by decide)⟩
      · rw [write, ← value.chars_spelling, chars_eq]
      · have noBlank {other : Char} (notSign : other ≠ '-') (notDigit : other.isDigit = false) :
            (c == other) = false := beq_eq_false_iff_ne.mpr (number_start start notSign notDigit)
        rw [isBlank, noBlank (by decide) (by decide), noBlank (by decide) (by decide),
          noBlank (by decide) (by decide), noBlank (by decide) (by decide)]
        rfl
  | text value => exact ⟨'"', _, rfl, by decide, by decide⟩
  | list items =>
      rw [write]
      split <;> exact ⟨'[', _, rfl, by decide, by decide⟩
  | object members =>
      rw [write]
      split <;> exact ⟨'{', _, rfl, by decide, by decide⟩

/-- The separator in front of the first item stands apart from the items. -/
theorem writeItems_cons (style : Style) (level : ℕ) (lead : List Char) (item : Document)
    (rest : List Document) :
    writeItems style level lead (item :: rest) =
      lead ++ writeItems style level [] (item :: rest) := by
  simp only [writeItems, List.nil_append, List.append_assoc]

theorem writeMembers_cons (style : Style) (level : ℕ) (lead : List Char)
    (member : String × Document) (rest : List (String × Document)) :
    writeMembers style level lead (member :: rest) =
      lead ++ writeMembers style level [] (member :: rest) := by
  simp only [writeMembers, List.nil_append, List.append_assoc]

/-- A value that starts like a number is one. -/
theorem value?_number {c : Char} (start : c = '-' ∨ c.isDigit = true) (fuel : ℕ)
    (rest : List Char) :
    value? (fuel + 1) (c :: rest) =
      (number? (c :: rest)).map fun found => (.number found.1, found.2) := by
  have noBlank : isBlank c = false := by
    have other {blank : Char} (notSign : blank ≠ '-') (notDigit : blank.isDigit = false) :
        (c == blank) = false := beq_eq_false_iff_ne.mpr (number_start start notSign notDigit)
    rw [isBlank, other (by decide) (by decide), other (by decide) (by decide),
      other (by decide) (by decide), other (by decide) (by decide)]
    rfl
  conv_lhs => unfold value?
  rw [skipBlank_cons noBlank]
  split
  · next same =>
    exact absurd (List.cons.inj same).1 (number_start start (by decide) (by decide))
  · next same =>
    exact absurd (List.cons.inj same).1 (number_start start (by decide) (by decide))
  · next same =>
    exact absurd (List.cons.inj same).1 (number_start start (by decide) (by decide))
  · next same =>
    exact absurd (List.cons.inj same).1 (number_start start (by decide) (by decide))
  · next same =>
    exact absurd (List.cons.inj same).1 (number_start start (by decide) (by decide))
  · next same =>
    exact absurd (List.cons.inj same).1 (number_start start (by decide) (by decide))
  · rfl

theorem skipBlank_skipBlank (text : List Char) : skipBlank (skipBlank text) = skipBlank text :=
  List.dropWhile_idempotent _ _

/-- Blanks in front of a value are passed over. -/
theorem value?_skipBlank (fuel : ℕ) (text : List Char) :
    value? fuel (skipBlank text) = value? fuel text := by
  cases fuel with
  | zero => rfl
  | succ fuel =>
      conv_lhs => unfold value?
      conv_rhs => unfold value?
      rw [skipBlank_skipBlank]

theorem items?_skipBlank (fuel : ℕ) (text : List Char) :
    items? fuel (skipBlank text) = items? fuel text := by
  cases fuel with
  | zero => rfl
  | succ fuel =>
      conv_lhs => unfold items?
      conv_rhs => unfold items?
      rw [value?_skipBlank]

theorem members?_skipBlank (fuel : ℕ) (text : List Char) :
    members? fuel (skipBlank text) = members? fuel text := by
  cases fuel with
  | zero => rfl
  | succ fuel =>
      conv_lhs => unfold members?
      conv_rhs => unfold members?
      rw [skipBlank_skipBlank]

theorem value?_newline (style : Style) (level fuel : ℕ) (text : List Char) :
    value? fuel (style.newline level ++ text) = value? fuel text := by
  rw [← value?_skipBlank, skipBlank_append (isBlank_newline style level), value?_skipBlank]

/-- An array that does not close at once has items. -/
theorem value?_array {text : List Char} (proceeds : ∀ rest, skipBlank text ≠ ']' :: rest)
    (fuel : ℕ) :
    value? (fuel + 1) ('[' :: text) =
      (items? fuel text).map fun found => (.array found.1, found.2) := by
  have opened : skipBlank ('[' :: text) = '[' :: text := rfl
  rw [← items?_skipBlank, value?]
  simp only [opened]

/-- An object that does not close at once has members. -/
theorem value?_object {text : List Char} (proceeds : ∀ rest, skipBlank text ≠ '}' :: rest)
    (fuel : ℕ) :
    value? (fuel + 1) ('{' :: text) =
      (members? fuel text).map fun found => (.object found.1, found.2) := by
  have opened : skipBlank ('{' :: text) = '{' :: text := rfl
  rw [← members?_skipBlank, value?]
  simp only [opened]

theorem write_list (style : Style) (level : ℕ) {items : List Document} (nonempty : items ≠ [])
    (rest : List Char) :
    write style level (.list items) ++ rest =
      '[' :: (writeItems style (level + 1) [] items ++ (style.newline level ++ ']' :: rest)) := by
  rw [write, if_neg (by simpa using nonempty)]
  simp

theorem write_object (style : Style) (level : ℕ) {members : List (String × Document)}
    (nonempty : members ≠ []) (rest : List Char) :
    write style level (.object members) ++ rest =
      '{' :: (writeMembers style (level + 1) [] members ++
        (style.newline level ++ '}' :: rest)) := by
  rw [write, if_neg (by simpa using nonempty)]
  simp

theorem skipBlank_quote (key : String) (text : List Char) :
    skipBlank (quote key ++ text) = '"' :: (key.toList.flatMap escape ++ '"' :: text) := by
  rw [quote, List.cons_append, List.cons_append, List.append_assoc]
  rfl

theorem skipBlank_colon (style : Style) (text : List Char) :
    skipBlank (style.colon ++ text) = ':' :: (style.colon.tail ++ text) := by
  cases style <;> rfl

theorem value?_colon (style : Style) (fuel : ℕ) (text : List Char) :
    value? fuel (style.colon.tail ++ text) = value? fuel text := by
  cases style with
  | compact => rfl
  | indented =>
      rw [← value?_skipBlank, ← value?_skipBlank fuel text]
      rfl

section Members

variable (style : Style) (level : ℕ) (key : String) {fuel : ℕ} {text rest after : List Char}
  {value : Json}

/-- The reader finds the last member of an object. -/
theorem members?_last (read : value? fuel text = some (value, rest))
    (closed : skipBlank rest = '}' :: after) :
    members? (fuel + 1) (style.newline level ++ (quote key ++ (style.colon ++ text))) =
      some ([(some key, value)], after) := by
  rw [members?, skipBlank_append (isBlank_newline style level)]
  simp only [skipBlank_quote, string?_quote, skipBlank_colon, value?_colon, read, closed]

/-- The reader finds a member of an object and goes on to the next one. -/
theorem members?_next (read : value? fuel text = some (value, rest))
    (divided : skipBlank rest = ',' :: after) :
    members? (fuel + 1) (style.newline level ++ (quote key ++ (style.colon ++ text))) =
      (members? fuel after).map fun found => ((some key, value) :: found.1, found.2) := by
  rw [members?, skipBlank_append (isBlank_newline style level)]
  simp only [skipBlank_quote, string?_quote, skipBlank_colon, value?_colon, read, divided]

end Members

mutual

/-- The reader finds the tree of a value, if it may take two steps per character. -/
theorem value?_write (style : Style) : ∀ (document : Document) (level fuel : ℕ) (rest : List Char),
    2 * (write style level document).length ≤ fuel + 1 → Spelling.Delimits rest →
    value? fuel (write style level document ++ rest) = some (document.tree, rest)
  | document, _, 0, _, enough, _ => by
      obtain ⟨c, tail, write_eq, -⟩ := exists_write_eq_cons style _ document
      rw [write_eq, List.length_cons] at enough
      omega
  | .null, _, fuel + 1, rest, _, _ => rfl
  | .boolean true, _, fuel + 1, rest, _, _ => rfl
  | .boolean false, _, fuel + 1, rest, _, _ => rfl
  | .number value, level, fuel + 1, rest, _, delimits => by
      obtain ⟨c, tail, chars_eq, start⟩ := exists_chars_eq_cons value.wellFormed_spelling
      have read := value.number?_text delimits
      rw [← value.chars_spelling, chars_eq, List.cons_append] at read
      rw [write, ← value.chars_spelling, chars_eq, List.cons_append, value?_number start, read]
      rfl
  | .text value, level, fuel + 1, rest, _, _ => by
      have read := string?_quote value rest
      change (string? ((value.toList.flatMap escape ++ ['"']) ++ rest)).map _ = _
      rw [List.append_assoc, List.singleton_append, read]
      rfl
  | .list [], level, fuel + 1, rest, _, _ => rfl
  | .list (item :: others), level, fuel + 1, rest, enough, _ => by
      have length_eq := congrArg List.length
        (write_list style level (List.cons_ne_nil item others) [])
      simp only [List.length_append, List.length_cons, List.length_nil] at length_eq
      have read := items?_write style (item :: others) (level + 1) level fuel rest
        (List.cons_ne_nil _ _) (by omega)
      obtain ⟨c, tail, write_eq, notBlank, notClosed⟩ := exists_write_eq_cons style (level + 1) item
      rw [write_list style level (List.cons_ne_nil _ _), value?_array, read]
      · rfl
      · intro after same
        rw [writeItems, List.nil_append, List.append_assoc, List.append_assoc,
          skipBlank_append (isBlank_newline style _), write_eq, List.cons_append,
          skipBlank_cons notBlank] at same
        exact notClosed (List.cons.inj same).1
  | .object [], level, fuel + 1, rest, _, _ => rfl
  | .object ((key, value) :: others), level, fuel + 1, rest, enough, _ => by
      have length_eq := congrArg List.length
        (write_object style level (List.cons_ne_nil (key, value) others) [])
      simp only [List.length_append, List.length_cons, List.length_nil] at length_eq
      have read := members?_write style ((key, value) :: others) (level + 1) level fuel rest
        (List.cons_ne_nil _ _) (by omega)
      rw [write_object style level (List.cons_ne_nil _ _), value?_object, read]
      · rfl
      · intro after same
        rw [writeMembers, List.nil_append, List.append_assoc, List.append_assoc, List.append_assoc,
          List.append_assoc, skipBlank_append (isBlank_newline style _), quote, List.cons_append,
          List.cons_append, skipBlank_cons (by decide)] at same
        exact absurd (List.cons.inj same).1 (by decide)

theorem items?_write (style : Style) : ∀ (items : List Document) (level outer fuel : ℕ)
    (rest : List Char), items ≠ [] → 2 * (writeItems style level [] items).length ≤ fuel →
    items? fuel (writeItems style level [] items ++ (style.newline outer ++ ']' :: rest)) =
      some (trees items, rest)
  | [], _, _, _, _, nonempty, _ => absurd rfl nonempty
  | item :: _, level, _, 0, _, _, enough => by
      obtain ⟨c, tail, write_eq, -⟩ := exists_write_eq_cons style level item
      rw [writeItems, write_eq] at enough
      simp at enough
  | [item], level, outer, fuel + 1, rest, _, enough => by
      rw [writeItems, writeItems, List.append_nil, List.nil_append, List.length_append] at enough
      have read := value?_write style item level fuel (style.newline outer ++ ']' :: rest)
        (by omega) (delimits_newline style outer rest (.inr (.inl rfl)))
      rw [writeItems, writeItems, List.append_nil, List.nil_append, List.append_assoc, items?,
        value?_newline, read]
      dsimp only
      rw [skipBlank_append (isBlank_newline style outer), skipBlank_cons (by decide)]
      rfl
  | item :: next :: others, level, outer, fuel + 1, rest, _, enough => by
      rw [writeItems, writeItems_cons, List.nil_append, List.length_append, List.length_append,
        List.length_append, List.length_singleton] at enough
      have read := value?_write style item level fuel
        (',' :: (writeItems style level [] (next :: others) ++
          (style.newline outer ++ ']' :: rest)))
        (by omega) (delimits_newline .compact 0 _ (.inl rfl))
      have read_others := items?_write style (next :: others) level outer fuel rest
        (List.cons_ne_nil _ _) (by omega)
      rw [writeItems, writeItems_cons, List.nil_append, List.append_assoc, List.append_assoc,
        List.append_assoc, List.singleton_append, items?, value?_newline, read]
      dsimp only
      rw [skipBlank_cons (by decide)]
      change (items? fuel _).map _ = _
      rw [read_others]
      rfl

theorem members?_write (style : Style) : ∀ (members : List (String × Document))
    (level outer fuel : ℕ) (rest : List Char),
    members ≠ [] → 2 * (writeMembers style level [] members).length ≤ fuel →
    members? fuel (writeMembers style level [] members ++ (style.newline outer ++ '}' :: rest)) =
      some (memberTrees members, rest)
  | [], _, _, _, _, nonempty, _ => absurd rfl nonempty
  | (key, _) :: _, level, _, 0, _, _, enough => by
      simp [writeMembers, quote] at enough
  | [(key, value)], level, outer, fuel + 1, rest, _, enough => by
      simp only [writeMembers, List.append_nil, List.nil_append, List.length_append] at enough
      have read := value?_write style value level fuel (style.newline outer ++ '}' :: rest)
        (by omega) (delimits_newline style outer rest (.inr (.inr rfl)))
      have closed : skipBlank (style.newline outer ++ '}' :: rest) = '}' :: rest := by
        rw [skipBlank_append (isBlank_newline style outer), skipBlank_cons (by decide)]
      simp only [writeMembers, List.append_nil, List.nil_append, List.append_assoc]
      rw [members?_last style level key read closed]
      rfl
  | (key, value) :: next :: others, level, outer, fuel + 1, rest, _, enough => by
      rw [writeMembers, writeMembers_cons] at enough ⊢
      simp only [List.nil_append, List.length_append, List.length_singleton] at enough
      have read := value?_write style value level fuel
        (',' :: (writeMembers style level [] (next :: others) ++
          (style.newline outer ++ '}' :: rest)))
        (by omega) (delimits_newline .compact 0 _ (.inl rfl))
      have read_others := members?_write style (next :: others) level outer fuel rest
        (List.cons_ne_nil _ _) (by omega)
      simp only [List.nil_append, List.append_assoc, List.cons_append]
      rw [members?_next style level key read (skipBlank_cons (by decide) _), read_others]
      rfl

end

/-- The text of a document reads back as its tree, in either style. -/
theorem read?_render (style : Style) (document : Document) :
    read? (document.render style) = some document.tree := by
  have read := value?_write style document 0 (2 * (write style 0 document).length + 2) []
    (by omega) fun c found => (nomatch found)
  rw [List.append_nil] at read
  rw [read?, render, String.toList_ofList, read]
  rfl

end Document

end Json

end EconModel
