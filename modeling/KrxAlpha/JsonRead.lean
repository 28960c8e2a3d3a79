import KrxAlpha.JsonText

/-! Reading JSON texts back. What `dumps` writes `loads` reads, and no first part of the text
of an object is read as a value: an object ends with its own closing brace, so what follows a
text that has been read changes nothing of what was read. -/
namespace KrxAlpha.JsonText
open List hiding cons nil tail

/-! ### What follows does not matter -/

section Extension

variable {α : Type}

/-- What the first reader reads, the second one reads of any longer text, once something
follows. -/
def Extends (first second : List Char → Option (α × List Char)) : Prop :=
  ∀ text value rest more, first text = some (value, rest) → rest ≠ [] ∨ more = [] →
    second (text ++ more) = some (value, rest ++ more)

theorem map_extends {read again : Option (α × List Char)}
    {change : α × List Char → β × List Char} {f : α → β}
    (shape : ∀ inner left, change (inner, left) = (f inner, left))
    (held : read.map change = some (value, rest))
    (grows : ∀ inner, read = some (inner, rest) → again = some (inner, rest ++ more)) :
    again.map change = some (value, rest ++ more) := by
  obtain ⟨⟨inner, left⟩, found, same⟩ := Option.map_eq_some_iff.mp held
  rw [shape] at same
  cases same
  rw [grows inner found, Option.map_some, shape]

theorem ite_extends {c : Prop} [Decidable c] {first second again other : Option α}
    (held : (if c then first else second) = some result) (yes : c → first = some result → again = some longer)
    (no : ¬ c → second = some result → other = some longer) :
    (if c then again else other) = some longer := by
  split_ifs at held ⊢ with holds
  · exact yes holds held
  · exact no holds held

theorem skip_append (skipped : skip text = mark :: rest)
    (more : List Char) : skip (text ++ more) = mark :: (rest ++ more) := by
  unfold skip at skipped ⊢
  rw [dropWhile_append, skipped]
  rfl

theorem scan_string_extends (read : scanString state text = some (value, rest)) (more : List Char) :
    scanString state (text ++ more) = some (value, rest ++ more) := by
  induction text generalizing state value with
  | nil => cases read
  | cons char text ih =>
    rw [scanString] at read
    rw [cons_append, scanString]
    refine ite_extends read (fun _ closed => ?_) fun _ read => ?_
    · cases closed
      rfl
    · cases step : state.next char with
      | none => simp [step] at read
      | some pair =>
        simp only [step] at read
        exact map_extends (fun _ _ => rfl) read fun _ found => ih found

variable {item other : List Char → Option (α × List Char)}

section

variable (grows : Extends item other) (empty : item [] = none)
include grows empty

theorem read_sequence_extends (enough : rounds ≤ more_)
    (read : readSequence close item rounds text = some (values, rest)) (more : List Char) :
    readSequence close other more_ (text ++ more) = some (values, rest ++ more) := by
  induction rounds generalizing text values more_ with
  | zero => cases read
  | succ rounds ih =>
    obtain ⟨later, rfl⟩ : ∃ later, more_ = later + 1 := ⟨more_ - 1, by omega⟩
    rw [readSequence] at read ⊢
    cases first : item text with
    | none => simp [first] at read
    | some pair =>
      obtain ⟨value, left⟩ := pair
      simp only [first] at read
      cases skipped : skip left with
      | nil => simp [skipped] at read
      | cons mark behind =>
        have nonempty : left ≠ [] := by
          rintro rfl
          cases skipped
        simp only [skipped] at read
        simp only [grows text value left more first (.inl nonempty), skip_append skipped more]
        refine ite_extends read (fun _ closed => ?_) fun _ open_ => ?_
        · cases closed
          rfl
        · refine ite_extends open_ (fun _ comma => ?_) fun _ other => nomatch other
          refine map_extends (fun _ _ => rfl) comma fun tail found => ?_
          -- The next item begins within the text, or the reader would have found none.
          cases next : skip behind with
          | nil =>
            rw [next] at found
            cases rounds with
            | zero => cases found
            | succ rounds => simp [readSequence, empty] at found
          | cons start beyond =>
            rw [next] at found
            have tail := ih (show rounds ≤ later by omega) found
            rw [cons_append] at tail
            rw [skip_append next, tail]

theorem read_enclosed_extends (read : readEnclosed close item text = some (values, rest))
    (more : List Char) : readEnclosed close other (text ++ more) = some (values, rest ++ more) := by
  unfold readEnclosed at read ⊢
  cases skipped : skip text with
  | nil => simp [skipped] at read
  | cons mark behind =>
    rw [skip_append skipped more]
    simp only [skipped] at read ⊢
    refine ite_extends read (fun _ closed => ?_) fun _ open_ => ?_
    · cases closed
      rfl
    · exact read_sequence_extends grows empty (by simp) open_ more

theorem read_field_extends : Extends (readField item) (readField other) := by
  intro text value rest more read follows
  unfold readField at read ⊢
  cases text with
  | nil => cases read
  | cons quote text =>
    simp only [cons_append] at read ⊢
    refine ite_extends read (fun _ opened => ?_) fun _ other => nomatch other
    cases key : scanString .plain text with
    | none => simp [key] at opened
    | some pair =>
      obtain ⟨name, left⟩ := pair
      simp only [key] at opened
      simp only [scan_string_extends key more]
      cases skipped : skip left with
      | nil => simp [skipped] at opened
      | cons mark behind =>
        simp only [skipped] at opened
        simp only [skip_append skipped more]
        refine ite_extends opened (fun _ colon => ?_) fun _ other => nomatch other
        refine map_extends (fun _ _ => rfl) colon fun held found => ?_
        cases next : skip behind with
        | nil => simp [next, empty] at found
        | cons start beyond =>
          have tail := grows _ held _ more found follows
          rw [next, cons_append] at tail
          rw [skip_append next, tail]

end

end Extension

theorem atom_append (follows : text.dropWhile isAtom ≠ [] ∨ more = []) :
    (text ++ more).takeWhile isAtom = text.takeWhile isAtom ∧
      (text ++ more).dropWhile isAtom = text.dropWhile isAtom ++ more := by
  rcases follows with follows | rfl
  · induction text with
    | nil => exact absurd rfl follows
    | cons char text ih =>
      cases atom : isAtom char with
      | true =>
        rw [dropWhile_cons_of_pos atom] at follows
        obtain ⟨taken, left⟩ := ih follows
        simp [atom, taken, left]
      | false => simp [atom]
  · simp

private theorem control_apart (control : first.toNat < 32) (char : Char)
    (visible : 32 ≤ char.toNat) : first ≠ char := by
  rintro rfl
  omega

private theorem read_atom_control (control : first.toNat < 32) (rest : List Char) :
    readAtom (first :: rest) = none := by
  have apart := control_apart control
  have digit : first.isDigit = false := by
    have zero : '0'.toNat = 48 := rfl
    rw [Bool.eq_false_iff, ne_eq, Char.isDigit_iff_toNat]
    omega
  have unsigned_ : unsigned (first :: rest) = first :: rest := by
    simp [unsigned, apart '-' (by decide)]
  rw [readAtom, if_neg, if_neg, if_neg, if_neg, dif_neg]
  · simp [isFloatText, control]
  · simp [isIntText, isWhole, unsigned_, digit]
  · simp [apart 'f' (by decide)]
  · simp [apart 't' (by decide)]
  · simp [apart 'n' (by decide)]

/-- A text of blanks is no JSON text. -/
theorem loads_blank (blank : ∀ char ∈ text, char.toNat ≤ 32) : loads text = none := by
  rw [loads]
  cases left : skip text with
  | nil => rfl
  | cons first rest =>
    have held : first ∈ text := (dropWhile_suffix _).subset (left ▸ mem_cons_self)
    have begun : isSpace first = false := by
      have := head?_dropWhile_not isSpace text
      rw [show text.dropWhile isSpace = first :: rest from left] at this
      simpa using this
    have control : first.toNat < 32 := by
      have space : first.toNat ≠ ' '.toNat := fun same => by
        rw [Char.toNat_inj.mp same] at begun
        cases begun
      have number : ' '.toNat = 32 := rfl
      have := blank first held
      omega
    have apart := control_apart control
    have atom : isAtom first = true := by
      simp [isAtom, begun, apart ',' (by decide), apart ':' (by decide), apart '"' (by decide),
        apart '[' (by decide), apart ']' (by decide), apart '\x7b' (by decide), apart '\x7d' (by decide)]
    rw [readValue, if_neg (apart '"' (by decide)), if_neg (apart '[' (by decide)),
      if_neg (apart '\x7b' (by decide)), takeWhile_cons_of_pos atom, read_atom_control control]
    rfl

theorem read_value_nil (depth : Nat) : readValue depth [] = none := by
  cases depth <;> rfl

/-- A reader of deeper values extends one of flatter values. -/
theorem read_value_extends (enough : depth ≤ deeper) :
    Extends (readValue depth) (readValue deeper) := by
  induction depth generalizing deeper with
  | zero => exact fun _ _ _ _ read => by cases read
  | succ depth ih =>
    obtain ⟨below, rfl⟩ : ∃ below, deeper = below + 1 := ⟨deeper - 1, by omega⟩
    have grows : Extends (readValue depth) (readValue below) := ih (by omega)
    intro text value rest more read follows
    cases text with
    | nil => cases read
    | cons first text =>
      rw [readValue] at read
      rw [cons_append, readValue]
      refine ite_extends read (fun _ quote => ?_) fun _ read => ite_extends read (fun _ bracket => ?_)
        fun _ read => ite_extends read (fun _ brace => ?_) fun _ atom => ?_
      · exact map_extends (fun _ _ => rfl) quote fun _ found => scan_string_extends found more
      · exact map_extends (fun _ _ => rfl) bracket fun _ found =>
          read_enclosed_extends grows (read_value_nil depth) found more
      · exact map_extends (f := fun fields => .object (Dict.ofList fields).entries)
          (fun _ _ => rfl) brace fun _ found =>
          read_enclosed_extends (read_field_extends grows (read_value_nil depth)) rfl found more
      · obtain ⟨held, found, same⟩ := Option.map_eq_some_iff.mp atom
        cases same
        obtain ⟨taken, left⟩ := atom_append follows
        rw [← cons_append, taken, left, found]
        rfl

/-- An object is read whatever follows it. -/
theorem read_object_extends (enough : depth ≤ deeper)
    (read : readValue depth ('\x7b' :: text) = some (value, rest)) (more : List Char) :
    readValue deeper ('\x7b' :: text ++ more) = some (value, rest ++ more) := by
  obtain ⟨below, rfl⟩ : ∃ below, depth = below + 1 := by
    cases depth with
    | zero => cases read
    | succ below => exact ⟨below, rfl⟩
  obtain ⟨deep, rfl⟩ : ∃ deep, deeper = deep + 1 := ⟨deeper - 1, by omega⟩
  have grows : Extends (readValue below) (readValue deep) := read_value_extends (by omega)
  exact map_extends (f := fun fields => .object (Dict.ofList fields).entries) (fun _ _ => rfl) read
    fun _ found => read_enclosed_extends (read_field_extends grows (read_value_nil below)) rfl found more

/-! ### Strings read back -/

private theorem hex_value_digit : ∀ digit < 16, hexValue (Nat.digitChar digit) = some digit := by
  decide

section Strings

variable {state next : Scan} {char added : Char}

theorem scan_silent (step : state.next char = some (next, none)) (rest : List Char) :
    scanString state (char :: rest) = scanString next rest := by
  have open_ : ¬ (state = .plain ∧ char = '"') := by
    rintro ⟨rfl, rfl⟩
    cases step
  rw [scanString, if_neg open_]
  simp only [step]
  cases scanString next rest <;> rfl

theorem scan_adding (open_ : state ≠ .plain ∨ char ≠ '"')
    (step : state.next char = some (next, some added)) (rest : List Char) :
    scanString state (char :: rest) =
      (scanString next rest).map fun (text, left) => (added :: text, left) := by
  rw [scanString, if_neg fun closing => open_.elim (· closing.1) (· closing.2)]
  simp only [step]
  rfl

/-- An escape of two characters. -/
theorem scan_simple (known : simpleEscape char = some added) (rest : List Char) :
    scanString .plain ('\\' :: char :: rest) =
      (scanString .plain rest).map fun (text, left) => (added :: text, left) := by
  have other : char ≠ 'u' := by
    rintro rfl
    cases known
  have step : Scan.escaped.next char = some (.plain, some added) := by
    simp only [Scan.next, if_neg other, known, Option.map_some]
  rw [scan_silent rfl, scan_adding (.inl (by decide)) step]

/-- An escape of a control character by its number. -/
theorem scan_control (control : char.toNat < 32) (rest : List Char) :
    scanString .plain ('\\' :: 'u' :: '0' :: '0' :: Nat.digitChar (char.toNat / 16) ::
        Nat.digitChar (char.toNat % 16) :: rest) =
      (scanString .plain rest).map fun (text, left) => (char :: text, left) := by
  have upper : (Scan.unit none 2 0).next (Nat.digitChar (char.toNat / 16)) =
      some (.unit none 1 (0 * 16 + char.toNat / 16), none) := by
    simp only [Scan.next, hex_value_digit (char.toNat / 16) (by omega)]
    rfl
  have lower : (Scan.unit none 1 (0 * 16 + char.toNat / 16)).next (Nat.digitChar (char.toNat % 16)) =
      some (.plain, some char) := by
    simp only [Scan.next, hex_value_digit (char.toNat % 16) (by omega), if_true, Scan.closeUnit]
    rw [if_neg (by omega), if_neg (by omega),
      show (0 * 16 + char.toNat / 16) * 16 + char.toNat % 16 = char.toNat by omega, Char.ofNat_toNat]
  have zeros (digits : List Char) : scanString .plain ('\\' :: 'u' :: '0' :: '0' :: digits) =
      scanString (.unit none 2 0) digits := by
    rw [scan_silent rfl, scan_silent rfl, scan_silent rfl, scan_silent rfl]
    rfl
  rw [zeros, scan_silent upper, scan_adding (.inl (by simp)) lower]

end Strings

/-- A character is written as an escape of two characters, by its number, or as itself. -/
theorem escape_char_cases (char : Char) :
    (∃ mark, simpleEscape mark = some char ∧ 32 ≤ mark.toNat ∧ escapeChar char = ['\\', mark]) ∨
    (char.toNat < 32 ∧ escapeChar char = ['\\', 'u', '0', '0', Nat.digitChar (char.toNat / 16),
      Nat.digitChar (char.toNat % 16)]) ∨
    (char ≠ '"' ∧ char ≠ '\\' ∧ 32 ≤ char.toNat ∧ escapeChar char = [char]) := by
  by_cases short : char ∈ ['"', '\\', '\n', '\r', '\t', '\x08', '\x0c']
  · left
    simp only [mem_cons, not_mem_nil, or_false] at short
    rcases short with rfl | rfl | rfl | rfl | rfl | rfl | rfl
    exacts [⟨'"', rfl, by decide, rfl⟩, ⟨'\\', rfl, by decide, rfl⟩, ⟨'n', rfl, by decide, rfl⟩,
      ⟨'r', rfl, by decide, rfl⟩, ⟨'t', rfl, by decide, rfl⟩, ⟨'b', rfl, by decide, rfl⟩,
      ⟨'f', rfl, by decide, rfl⟩]
  · right
    simp only [mem_cons, not_mem_nil, or_false, not_or] at short
    obtain ⟨quote, slash, newline, return_, tab, back, feed⟩ := short
    simp only [escapeChar, if_neg quote, if_neg slash, if_neg newline, if_neg return_, if_neg tab,
      if_neg back, if_neg feed]
    by_cases control : char.toNat < 32
    · exact .inl ⟨control, if_pos control⟩
    · exact .inr ⟨quote, slash, by omega, if_neg control⟩

theorem scan_escaped_char (char : Char) (rest : List Char) :
    scanString .plain (escapeChar char ++ rest) =
      (scanString .plain rest).map fun (text, left) => (char :: text, left) := by
  rcases escape_char_cases char with ⟨mark, known, -, text⟩ | ⟨control, text⟩ |
    ⟨quote, slash, visible, text⟩ <;> rw [text]
  · exact scan_simple known rest
  · exact scan_control control rest
  · refine scan_adding (.inr quote) ?_ rest
    simp only [Scan.next, if_neg slash, if_neg (Nat.not_lt.mpr visible)]

theorem scan_escaped (text rest : List Char) :
    scanString .plain (text.flatMap escapeChar ++ '"' :: rest) = some (text, rest) := by
  induction text with
  | nil => simp [scanString]
  | cons char text ih =>
    rw [flatMap_cons, append_assoc, scan_escaped_char, ih]
    rfl

theorem quoted_append (text rest : List Char) :
    quoted text ++ rest = '"' :: (text.flatMap escapeChar ++ '"' :: rest) := by
  simp [quoted]

/-! ### Sequences read back -/

/-- What follows does not continue an atom. -/
def Follows (rest : List Char) : Prop := ∀ char ∈ rest.head?, isAtom char = false

/-- The text begins a value and is read back as the result, whatever structure follows. -/
def ReadsAs {α : Type} (item : List Char → Option (α × List Char)) (text : List Char) (value : α) :
    Prop :=
  (∃ first tail, text = first :: tail ∧ isSpace first = false ∧ first ≠ ']' ∧ first ≠ '\x7d') ∧
    ∀ rest, Follows rest → item (text ++ rest) = some (value, rest)

theorem skip_begun (begun : isSpace first = false) : skip (first :: text) = first :: text := by
  simp [skip, begun]

theorem skip_blank (begun : isSpace first = false) :
    skip (' ' :: first :: text) = first :: text := by
  exact skip_begun begun

section Sequences

variable {α : Type} {item : List Char → Option (α × List Char)} {close : Char}

theorem joined_begun (reads : List.Forall₂ (ReadsAs item) texts values) (some_ : texts ≠ []) :
    ∃ first tail, joined texts = first :: tail ∧ isSpace first = false ∧ first ≠ ']' ∧
      first ≠ '\x7d' := by
  cases reads with
  | nil => exact absurd rfl some_
  | @cons text value texts values read later =>
    obtain ⟨⟨first, tail, rfl, begun⟩, -⟩ := read
    cases texts with
    | nil => exact ⟨first, tail, rfl, begun⟩
    | cons next texts => exact ⟨first, _, rfl, begun⟩

theorem read_sequence_joined (ends : isSpace close = false) (closes : isAtom close = false)
    (other : ',' ≠ close) (reads : List.Forall₂ (ReadsAs item) texts values) (some_ : texts ≠ [])
    (enough : texts.length ≤ rounds) (rest : List Char) :
    readSequence close item rounds (joined texts ++ close :: rest) = some (values, rest) := by
  induction reads generalizing rounds with
  | nil => exact absurd rfl some_
  | @cons text value texts values first later ih =>
    obtain ⟨rounds, rfl⟩ : ∃ below, rounds = below + 1 := ⟨rounds - 1, by simp at enough; omega⟩
    have bound : texts.length ≤ rounds := by simpa using enough
    cases texts with
    | nil =>
      cases later
      have read := first.2 (close :: rest) (by simpa [Follows] using closes)
      simp [joined, readSequence, read, skip_begun ends]
    | cons next texts =>
      have read := first.2 (',' :: ' ' :: (joined (next :: texts) ++ close :: rest))
        (by simp [Follows, isAtom])
      obtain ⟨start, tail, begun, plain, -⟩ := joined_begun later (cons_ne_nil _ _)
      have skipped : skip (' ' :: (joined (next :: texts) ++ close :: rest)) =
          joined (next :: texts) ++ close :: rest := by
        rw [begun]
        exact skip_blank plain
      have comma : skip (',' :: ' ' :: (joined (next :: texts) ++ close :: rest)) =
          ',' :: ' ' :: (joined (next :: texts) ++ close :: rest) := skip_begun (by decide)
      have split : joined (text :: next :: texts) ++ close :: rest =
          text ++ ',' :: ' ' :: (joined (next :: texts) ++ close :: rest) := by
        rw [joined, append_assoc, cons_append, cons_append]
        simp
      rw [split, readSequence]
      simp only [read, comma, if_neg other, if_true, skipped,
        ih (cons_ne_nil _ _) bound, Option.map_some]

theorem mem_joined_length (listed : text ∈ texts) : text.length ≤ (joined texts).length := by
  induction texts with
  | nil => cases listed
  | cons first texts ih =>
    cases texts with
    | nil => simp_all [joined]
    | cons next texts =>
      rw [joined, length_append]
      · rcases mem_cons.mp listed with rfl | later
        · omega
        · have := ih later
          simp only [length_cons]
          omega
      · simp

theorem joined_length
    (reads : List.Forall₂ (ReadsAs item) texts values) : texts.length ≤ (joined texts).length := by
  induction reads with
  | nil => exact Nat.zero_le _
  | @cons text value texts values read later ih =>
    obtain ⟨⟨first, tail, rfl, -⟩, -⟩ := read
    cases texts with
    | nil => simp [joined]
    | cons next texts =>
      have split : joined ((first :: tail) :: next :: texts) =
          first :: tail ++ ',' :: ' ' :: joined (next :: texts) := rfl
      rw [split]
      simp only [length_append, length_cons] at ih ⊢
      omega

theorem read_enclosed_joined (bracket : close = ']' ∨ close = '\x7d') {texts : List (List Char)}
    {values : List α} (reads : List.Forall₂ (ReadsAs item) texts values) (rest : List Char) :
    readEnclosed close item (joined texts ++ close :: rest) = some (values, rest) := by
  have ends : isSpace close = false := by rcases bracket with rfl | rfl <;> decide
  have closes : isAtom close = false := by rcases bracket with rfl | rfl <;> decide
  have other : ',' ≠ close := by rcases bracket with rfl | rfl <;> decide
  by_cases none_ : texts = []
  · subst none_
    cases reads
    simp [readEnclosed, joined, skip_begun ends]
  · obtain ⟨first, tail, begun, plain, unclosed⟩ := joined_begun reads none_
    have enough : texts.length ≤ (joined texts ++ close :: rest).length := by
      have := joined_length reads
      rw [length_append]
      omega
    have read := read_sequence_joined ends closes other reads none_ enough rest
    have open_ : first ≠ close := by
      rcases bracket with rfl | rfl
      · exact unclosed.1
      · exact unclosed.2
    rw [begun, cons_append] at read ⊢
    simp only [readEnclosed, skip_begun plain, if_neg open_, read]

end Sequences

/-! ### Numbers read back -/

theorem digits_head (positive : 0 < number) :
    (Nat.toDigits 10 number).head?.any (· ≠ '0') = true := by
  induction number using Nat.strongRecOn with
  | _ number ih =>
    by_cases single : number < 10
    · rw [Nat.toDigits_of_lt_base single]
      have digit : ∀ digit < 10, 0 < digit → Nat.digitChar digit ≠ '0' := by decide
      simpa using digit number single positive
    · have shorter := ih (number / 10) (by omega) (by omega)
      rw [Nat.toDigits_of_base_le (by decide) (by omega)]
      cases front : Nat.toDigits 10 (number / 10) with
      | nil => simp [front] at shorter
      | cons first tail => simpa [front] using shorter

theorem digits_whole (number : Nat) : isWhole (Nat.toDigits 10 number) = true := by
  have digits : (Nat.toDigits 10 number).all Char.isDigit = true := by
    rw [all_eq_true]
    exact fun char listed => Nat.isDigit_of_mem_toDigits (by decide) (by decide) listed
  unfold isWhole
  rw [digits, Bool.true_and, Bool.or_eq_true]
  rcases Nat.eq_zero_or_pos number with rfl | positive
  · exact .inl (by decide)
  · exact .inr (digits_head positive)

theorem digits_unsigned (number : Nat) : (Nat.toDigits 10 number).head? ≠ some '-' := by
  intro signed
  have digit := Nat.isDigit_of_mem_toDigits (b := 10) (n := number) (by decide) (by decide)
    (mem_of_mem_head? signed)
  exact absurd digit (by decide)

theorem int_text_is_int (value : Int) : isIntText (intText value) = true := by
  unfold isIntText intText unsigned
  split
  · exact digits_whole _
  · rw [if_neg (digits_unsigned _)]
    exact digits_whole _

theorem int_value_text (value : Int) : intValue (intText value) = value := by
  unfold intValue intText
  split_ifs with negative signed signed
  · rw [tail_cons, Nat.ofDigitChars_ten_toDigits]
    omega
  · exact absurd rfl signed
  · exact absurd signed (digits_unsigned _)
  · rw [Nat.ofDigitChars_ten_toDigits]
    omega

theorem read_int_text (value : Int) : readAtom (intText value) = some (.int value) := by
  have whole := int_text_is_int value
  have other : ∀ text, isIntText text = false → intText value ≠ text := by
    rintro text fails rfl
    rw [whole] at fails
    cases fails
  unfold readAtom
  rw [if_neg (other _ (by decide)), if_neg (other _ (by decide)), if_neg (other _ (by decide)),
    if_pos whole, int_value_text]

theorem float_not_int (float : isFloatText text = true) : isIntText text = false := by
  by_contra whole
  rw [Bool.not_eq_false] at whole
  simp only [isFloatText, Bool.and_eq_true, Bool.or_eq_true] at float
  rcases float.2 with special | ⟨-, tail⟩
  · have none_ : ∀ text ∈ specialFloats, isIntText text = false := by decide
    rw [none_ text (contains_iff_mem.mp special)] at whole
    cases whole
  · have digits : ∀ char ∈ unsigned text, char.isDigit = true := by
      simp only [isIntText, isWhole, Bool.and_eq_true] at whole
      exact all_eq_true.mp whole.1
    rw [← append_nil (unsigned text), dropWhile_append_of_pos digits] at tail
    cases tail

theorem read_float_text (text : FloatText) : readAtom text.val = some (.float text) := by
  obtain ⟨text, float⟩ := text
  have other : ∀ word, isFloatText word = false → text ≠ word := by
    rintro word fails rfl
    rw [float] at fails
    cases fails
  unfold readAtom
  rw [if_neg (other _ (by decide)), if_neg (other _ (by decide)), if_neg (other _ (by decide)),
    if_neg (by rw [float_not_int float]; simp), dif_pos float]

theorem digit_is_atom (digit : char.isDigit = true) : isAtom char = true := by
  by_contra ends
  simp only [isAtom, isSpace, Bool.not_eq_true', Bool.not_eq_false, Bool.or_eq_true,
    decide_eq_true_eq, or_assoc] at ends
  rcases ends with rfl | rfl | rfl | rfl | rfl | rfl | rfl | rfl | rfl | rfl | rfl <;> cases digit

theorem int_text_atoms (value : Int) : ∀ char ∈ intText value, isAtom char = true := by
  have digits (number : Nat) : ∀ char ∈ Nat.toDigits 10 number, isAtom char = true :=
    fun char listed => digit_is_atom (Nat.isDigit_of_mem_toDigits (by decide) (by decide) listed)
  unfold intText
  split
  · exact forall_mem_cons.mpr ⟨by decide, digits _⟩
  · exact digits _

/-! ### Values read back -/

theorem atom_reads (atoms : ∀ char ∈ text, isAtom char = true) (read : readAtom text = some value)
    (enough : text.length ≤ depth) : ReadsAs (readValue depth) text value := by
  cases text with
  | nil => cases read
  | cons first tail =>
    obtain ⟨below, rfl⟩ : ∃ below, depth = below + 1 := ⟨depth - 1, by simp at enough; omega⟩
    have atom := atoms first mem_cons_self
    have other : ∀ mark : Char, isAtom mark = false → first ≠ mark := by
      rintro mark fails rfl
      rw [atom] at fails
      cases fails
    have plain : isSpace first = false := by
      by_contra space
      simp [isAtom, space] at atom
    refine ⟨⟨first, tail, rfl, plain, other ']' (by decide), other '\x7d' (by decide)⟩, ?_⟩
    intro rest follows
    have stops : rest.takeWhile isAtom = [] ∧ rest.dropWhile isAtom = rest := by
      cases rest with
      | nil => exact ⟨rfl, rfl⟩
      | cons mark rest =>
        have ends : isAtom mark = false := follows mark rfl
        simp [ends]
    rw [List.cons_append, readValue, if_neg (other '"' (by decide)), if_neg (other '[' (by decide)),
      if_neg (other '\x7b' (by decide)), ← cons_append, takeWhile_append_of_pos atoms,
      dropWhile_append_of_pos atoms, stops.1, stops.2, append_nil, read]
    rfl

theorem quoted_reads (text : List Char) (enough : (quoted text).length ≤ depth) :
    ReadsAs (readValue depth) (quoted text) (.string text) := by
  obtain ⟨below, rfl⟩ : ∃ below, depth = below + 1 := ⟨depth - 1, by simp [quoted] at enough; omega⟩
  refine ⟨⟨'"', _, rfl, by decide, by decide, by decide⟩, ?_⟩
  intro rest _
  rw [quoted_append, readValue, scan_escaped]
  rfl

theorem field_reads (reads : ReadsAs (readValue depth) text value) (key : List Char) :
    ReadsAs (readField (readValue depth)) (quoted key ++ ':' :: ' ' :: text) (key, value) := by
  refine ⟨⟨'"', _, rfl, by decide, by decide, by decide⟩, ?_⟩
  intro rest follows
  obtain ⟨⟨first, tail, rfl, plain, -⟩, read⟩ := reads
  have colon : skip (':' :: ' ' :: (first :: tail ++ rest)) = ':' :: ' ' :: (first :: tail ++ rest) :=
    skip_begun (by decide)
  have value_ : skip (' ' :: (first :: tail ++ rest)) = first :: tail ++ rest := skip_blank plain
  rw [append_assoc, quoted_append]
  simp only [readField, scan_escaped, cons_append] at colon value_ ⊢
  simp only [colon, value_]
  rw [← cons_append, read rest follows]
  rfl

theorem dumps_array (items : List Value) :
    dumps (.array items) = '[' :: (joined (dumpsItems items) ++ [']']) := rfl

theorem dumps_object (fields : List (List Char × Value)) :
    dumps (.object fields) = '\x7b' :: (joined (dumpsFields fields) ++ ['\x7d']) := rfl

mutual

/-- A value is read back from its text by a reader deep enough. -/
theorem dumps_reads : ∀ (value : Value) (depth : Nat), (dumps value).length ≤ depth →
    ReadsAs (readValue depth) (dumps value) (loaded value)
  | .null, _, enough => atom_reads (all_eq_true.mp rfl) rfl enough
  | .bool true, _, enough => atom_reads (all_eq_true.mp rfl) rfl enough
  | .bool false, _, enough => atom_reads (all_eq_true.mp rfl) rfl enough
  | .int value, _, enough => atom_reads (int_text_atoms value) (read_int_text value) enough
  | .float text, _, enough => by
    have plain := text.property
    simp only [isFloatText, Bool.and_eq_true, all_eq_true] at plain
    exact atom_reads (fun char listed => (plain.1 char listed).1) (read_float_text text) enough
  | .string text, _, enough => quoted_reads text enough
  | .array items, depth, enough => by
    simp only [dumps_array, length_append, length_cons] at enough
    obtain ⟨below, rfl⟩ : ∃ below, depth = below + 1 := ⟨depth - 1, by omega⟩
    have reads := items_read items below fun text listed =>
      (mem_joined_length listed).trans (by omega)
    refine ⟨⟨'[', _, rfl, by decide, by decide, by decide⟩, ?_⟩
    intro rest _
    have whole : dumps (.array items) ++ rest = '[' :: (joined (dumpsItems items) ++ ']' :: rest) := by
      simp [dumps_array]
    rw [whole, readValue, read_enclosed_joined (.inl rfl) reads rest]
    rfl
  | .object fields, depth, enough => by
    simp only [dumps_object, length_append, length_cons] at enough
    obtain ⟨below, rfl⟩ : ∃ below, depth = below + 1 := ⟨depth - 1, by omega⟩
    have reads := fields_read fields below fun text listed =>
      (mem_joined_length listed).trans (by omega)
    refine ⟨⟨'\x7b', _, rfl, by decide, by decide, by decide⟩, ?_⟩
    intro rest _
    have whole : dumps (.object fields) ++ rest =
        '\x7b' :: (joined (dumpsFields fields) ++ '\x7d' :: rest) := by
      simp [dumps_object]
    rw [whole, readValue, read_enclosed_joined (.inr rfl) reads rest]
    rfl

theorem items_read : ∀ (items : List Value) (depth : Nat),
    (∀ text ∈ dumpsItems items, text.length ≤ depth) →
      List.Forall₂ (ReadsAs (readValue depth)) (dumpsItems items) (loadedItems items)
  | [], _, _ => .nil
  | item :: rest, depth, enough =>
    .cons (dumps_reads item depth (enough _ mem_cons_self))
      (items_read rest depth fun text listed => enough text (mem_cons_of_mem _ listed))

theorem fields_read : ∀ (fields : List (List Char × Value)) (depth : Nat),
    (∀ text ∈ dumpsFields fields, text.length ≤ depth) →
      List.Forall₂ (ReadsAs (readField (readValue depth))) (dumpsFields fields) (loadedFields fields)
  | [], _, _ => .nil
  | (key, value) :: rest, depth, enough => by
    refine .cons (field_reads (dumps_reads value depth ?_) key) (fields_read rest depth fun text listed =>
      enough text (mem_cons_of_mem _ listed))
    have := enough _ mem_cons_self
    simp only [length_append, length_cons] at this
    omega

end

theorem loads_dumps (value : Value) : loads (dumps value) = some (loaded value) := by
  obtain ⟨⟨first, tail, begun, plain, -⟩, read⟩ :=
    dumps_reads value ((dumps value).length + 1) (by omega)
  have whole := read [] (by simp [Follows])
  rw [append_nil] at whole
  have unskipped : skip (dumps value) = dumps value := by
    rw [begun]
    exact skip_begun plain
  simp only [loads, unskipped, whole]
  rfl

/-- A text cut short of an object's closing brace is no JSON text. -/
theorem loads_cut (fields : List (List Char × Value)) (cut : more ≠ [])
    (split : dumps (.object fields) = part ++ more) : loads part = none := by
  cases part with
  | nil => rfl
  | cons first part =>
    have brace : first = '\x7b' := by
      exact (List.cons.inj split).1.symm
    subst brace
    have unskipped : skip ('\x7b' :: part) = '\x7b' :: part := skip_begun (by decide)
    simp only [loads, unskipped]
    cases read : readValue (('\x7b' :: part).length + 1) ('\x7b' :: part) with
    | none => rfl
    | some pair =>
      -- Had the part been read, the whole text would be read with the cut-off end left over.
      have whole := (dumps_reads (.object fields) ((dumps (.object fields)).length + 1)
        (by omega)).2 [] (by simp [Follows])
      have longer : ('\x7b' :: part).length + 1 ≤ (dumps (.object fields)).length + 1 := by
        rw [split, length_append]
        omega
      have extended := read_object_extends longer read more
      rw [← split] at extended
      rw [append_nil, extended] at whole
      cases more with
      | nil => exact absurd rfl cut
      | cons char more => simp at whole

/-! ### Control characters -/

/-- No control character: a text within one line. -/
def Printable (text : List Char) : Prop := ∀ char ∈ text, 32 ≤ char.toNat

theorem Printable.of_all (all : text.all (fun char => 32 ≤ char.toNat) = true) : Printable text :=
  fun char listed => of_decide_eq_true (all_eq_true.mp all char listed)

theorem Printable.append (before : Printable first)
    (after : Printable second) : Printable (first ++ second) :=
  fun char listed => (mem_append.mp listed).elim (before char) (after char)

theorem Printable.cons (visible : 32 ≤ char.toNat)
    (rest : Printable text) : Printable (char :: text) :=
  forall_mem_cons.mpr ⟨visible, rest⟩

theorem joined_printable (each : ∀ text ∈ texts, Printable text) : Printable (joined texts) := by
  induction texts with
  | nil => exact .of_all rfl
  | cons first texts ih =>
    have later := ih fun text listed => each text (mem_cons_of_mem _ listed)
    have here := each first mem_cons_self
    cases texts with
    | nil => exact here
    | cons next texts => exact here.append (.cons (by decide) (.cons (by decide) later))

theorem escaped_printable (char : Char) : Printable (escapeChar char) := by
  rcases escape_char_cases char with ⟨mark, -, visible, text⟩ | ⟨control, text⟩ |
    ⟨-, -, visible, text⟩ <;> rw [text]
  · exact .cons (by decide) (.cons visible (.of_all rfl))
  · have digit : ∀ digit < 16, 32 ≤ (Nat.digitChar digit).toNat := by decide
    exact .append (.of_all (rfl : ['\\', 'u', '0', '0'].all _ = true))
      (.cons (digit _ (by omega)) (.cons (digit _ (by omega)) (.of_all rfl)))
  · exact .cons visible (.of_all rfl)

theorem quoted_printable (text : List Char) : Printable (quoted text) := by
  refine .append (.cons (by decide) ?_) (.of_all rfl)
  intro char listed
  obtain ⟨plain, -, within⟩ := mem_flatMap.mp listed
  exact escaped_printable plain char within

theorem digit_visible {char : Char} (digit : char.isDigit = true) : 32 ≤ char.toNat := by
  have zero : 48 ≤ char.toNat := (Char.isDigit_iff_toNat.mp digit).1
  omega

theorem int_text_printable (value : Int) : Printable (intText value) := by
  have digits (number : Nat) : Printable (Nat.toDigits 10 number) :=
    fun char listed => digit_visible (Nat.isDigit_of_mem_toDigits (by decide) (by decide) listed)
  unfold intText
  split
  · exact .cons (by decide) (digits _)
  · exact digits _

mutual

theorem dumps_printable : ∀ value : Value, Printable (dumps value)
  | .null => .of_all rfl
  | .bool true => .of_all rfl
  | .bool false => .of_all rfl
  | .int value => int_text_printable value
  | .float text => by
    have plain := text.property
    simp only [isFloatText, Bool.and_eq_true, all_eq_true, decide_eq_true_eq] at plain
    exact fun char listed => (plain.1 char listed).2
  | .string text => quoted_printable text
  | .array items =>
    .append (.cons (by decide) (joined_printable (items_printable items)))
      (.of_all rfl)
  | .object fields =>
    .append (.cons (by decide) (joined_printable (fields_printable fields)))
      (.of_all rfl)

theorem items_printable : ∀ items : List Value, ∀ text ∈ dumpsItems items, Printable text
  | [], _, listed => by cases listed
  | item :: rest, text, listed =>
    (mem_cons.mp listed).elim (fun same => same ▸ dumps_printable item)
      (items_printable rest text)

theorem fields_printable : ∀ fields : List (List Char × Value),
    ∀ text ∈ dumpsFields fields, Printable text
  | [], _, listed => by cases listed
  | (key, value) :: rest, text, listed =>
    (mem_cons.mp listed).elim
      (fun same => same ▸ (quoted_printable key).append
        (.cons (by decide) (.cons (by decide) (dumps_printable value))))
      (fields_printable rest text)

end

/-! ### Names used once -/

mutual

/-- No object of the value names a field twice. -/
def Distinct : Value → Prop
  | .null | .bool _ | .int _ | .float _ | .string _ => True
  | .array items => DistinctItems items
  | .object fields => (fields.map Prod.fst).Nodup ∧ DistinctFields fields

def DistinctItems : List Value → Prop
  | [] => True
  | item :: rest => Distinct item ∧ DistinctItems rest

def DistinctFields : List (List Char × Value) → Prop
  | [] => True
  | (_, value) :: rest => Distinct value ∧ DistinctFields rest

end

mutual

theorem loaded_distinct : ∀ value : Value, Distinct value → loaded value = value
  | .null, _ => rfl
  | .bool _, _ => rfl
  | .int _, _ => rfl
  | .float _, _ => rfl
  | .string _, _ => rfl
  | .array items, distinct => by rw [loaded, loaded_items_distinct items distinct]
  | .object fields, distinct => by
    rw [loaded, loaded_fields_distinct fields distinct.2, Dict.entries_ofList distinct.1]

theorem loaded_items_distinct : ∀ items : List Value, DistinctItems items → loadedItems items = items
  | [], _ => rfl
  | item :: rest, distinct => by
    rw [loadedItems, loaded_distinct item distinct.1, loaded_items_distinct rest distinct.2]

theorem loaded_fields_distinct : ∀ fields : List (List Char × Value), DistinctFields fields →
    loadedFields fields = fields
  | [], _ => rfl
  | (_, value) :: rest, distinct => by
    rw [loadedFields, loaded_distinct value distinct.1, loaded_fields_distinct rest distinct.2]

end

end KrxAlpha.JsonText
