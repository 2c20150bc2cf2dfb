import Mathlib.Data.List.Forall2
import TokenTariff.Json.Writer
import TokenTariff.Proofs.Json.Records
import TokenTariff.Proofs.Json.WholeNumbers
/-!
# Written texts are texts of what was written

A string is read back as it was written: what is escaped reads as the character itself, and what is
not stands for itself. A list or an object is written as one of its own parts, whether on one line or
over several.

* `stringText_written`: every string;
* `reads_integer`, `reads_boolean`, `reads_double`: scalars;
* `Style.enclosed_list`, `Style.enclosed_object`: lists and objects;
* `recordText_object`: an object that tells a record.
-/

namespace TokenTariff.Json
set_option autoImplicit false

/-! ## Strings -/

namespace StringPlace
variable {place : StringPlace} {written text content content' : Bytes}

theorem Reads.ne_nil (h : place.Reads text content) : text ≠ [] := by
  cases h <;> exact List.cons_ne_nil _ _

/-- What is read up to a quote is read in front of any other end as well. -/
theorem Reads.before_end (h : place.Reads (written ++ [quoteMark]) content)
    (tail : StringPlace.plain.Reads text content') :
    place.Reads (written ++ text) (content ++ content') := by
  generalize whole_eq : written ++ [quoteMark] = whole at h
  induction h generalizing written with
  | @last place b step =>
    cases written with
    | nil =>
      obtain ⟨rfl, -⟩ := finished_of_step step
      exact tail
    | cons a written => cases written <;> cases whole_eq
  | @more place next b done rest content step inner ih =>
    cases written with
    | nil =>
      cases whole_eq
      exact absurd rfl inner.ne_nil
    | cons a written =>
      obtain ⟨rfl, rest_eq⟩ := List.cons.inj whole_eq
      rw [List.append_assoc]
      exact .more step (ih rest_eq)

theorem step_of_high {b : UInt8} (high : ¬ b < 0x80) :
    StringPlace.plain.step b = .ok (.onward .plain [b]) := by
  have notQuote : b ≠ quoteMark := fun e => high (e ▸ by decide)
  have notBackslash : b ≠ backslash := fun e => high (e ▸ by decide)
  have notControl : ¬ b < 0x20 := fun low => high (UInt8.lt_trans low (by decide))
  rw [StringPlace.step, if_neg notQuote, if_neg notBackslash, if_neg notControl]

/-- Bytes outside of ASCII stand for themselves. -/
theorem reads_append (high : ∀ b ∈ written, ¬ b < 0x80)
    (tail : StringPlace.plain.Reads text content) :
    StringPlace.plain.Reads (written ++ text) (written ++ content) := by
  induction written with
  | nil => exact tail
  | cons b written ih =>
    obtain ⟨first, others⟩ := List.forall_mem_cons.1 high
    have more := Reads.more (step_of_high first) (ih others)
    exact more

end StringPlace

theorem encode_high {c : Char} (high : ¬ c.toNat < 0x80) :
    ∀ b ∈ String.utf8EncodeChar c, ¬ b < 0x80 := by
  intro b mem
  rw [UInt8.lt_iff_toNat_lt, show (0x80 : UInt8).toNat = 0x80 from rfl]
  rcases Bytes.encode_cases c with ⟨_, e⟩ | ⟨_, _, e⟩ | ⟨_, _, _, e⟩ | ⟨_, _, _, _, e⟩
  all_goals simp only [e, List.mem_cons, List.not_mem_nil, or_false] at mem
  · have := Bytes.encode_eq_one_iff.1 e
    omega
  · have := Bytes.encode_eq_two_iff.1 e
    rcases mem with rfl | rfl <;> omega
  · have := Bytes.encode_eq_three_iff.1 e
    rcases mem with rfl | rfl | rfl <;> omega
  · have := Bytes.encode_eq_four_iff.1 e
    rcases mem with rfl | rfl | rfl | rfl <;> omega

/-- Reading undoes the escapes of the characters in ASCII. -/
theorem stringBytes_escapedChar : ∀ n : Fin 0x80,
    (stringBytes .plain ((escapedChar (Char.ofNat n)).flatMap String.utf8EncodeChar ++
      [quoteMark])).toOption = some (String.utf8EncodeChar (Char.ofNat n), []) := by
  decide +kernel

theorem escapedChar_of_high {c : Char} (high : ¬ c.toNat < 0x80) : escapedChar c = [c] := by
  have plain : letterEscape? c = none := by
    refine List.lookup_eq_none_iff.2 fun escape mem => bne_iff_ne.2 ?_
    rintro rfl
    refine high ?_
    clear high
    revert escape
    decide
  rw [escapedChar, plain]
  exact if_neg (by omega)

theorem reads_escapedChar (c : Char) {text content : Bytes}
    (tail : StringPlace.plain.Reads text content) :
    StringPlace.plain.Reads ((escapedChar c).flatMap String.utf8EncodeChar ++ text)
      (String.utf8EncodeChar c ++ content) := by
  by_cases ascii : c.toNat < 0x80
  · have read := stringBytes_escapedChar ⟨c.toNat, ascii⟩
    rw [toOption_eq_some_iff, Char.ofNat_toNat] at read
    obtain ⟨whole, split, reads⟩ := reads_of_stringBytes read
    rw [List.append_nil] at split
    exact (split ▸ reads).before_end tail
  · rw [escapedChar_of_high ascii, List.flatMap_singleton]
    exact StringPlace.reads_append (encode_high ascii) tail

theorem reads_escaped (chars : List Char) :
    StringPlace.plain.Reads ((chars.flatMap escapedChar).flatMap String.utf8EncodeChar ++ [quoteMark])
      (chars.flatMap String.utf8EncodeChar) := by
  induction chars with
  | nil => exact .last rfl
  | cons c chars ih =>
    rw [List.flatMap_cons, List.flatMap_append, List.append_assoc, List.flatMap_cons]
    exact reads_escapedChar c ih

/-- Every string is read back as it was written. -/
theorem stringText_written (string : String) :
    ∃ text, Bytes.ofText (stringText string) = quoteMark :: text ∧ StringText text string := by
  refine ⟨_, ?_, _, reads_escaped string.toList, Bytes.text?_ofText string⟩
  have mark : Bytes.ofText "\"" = [quoteMark] := rfl
  rw [stringText, Bytes.ofText_append, Bytes.ofText_append, mark, Bytes.ofText,
    String.toList_ofList]
  simp

/-! ## Scalars -/

theorem reads_integer {n : Int} (low : -0x8000000000000000 ≤ n) (high : n < 0x8000000000000000) :
    Reads integer (· = Bytes.ofText (toString n)) n := by
  refine .of_skip (fun bytes => ?_) ?_
  · have takes : Takes (scalar "i64") ScalarText := takes_scalarOr_error _
    rw [integer, integer, takes.skip]
  · rintro _ rest rfl stops
    exact integer_toString low high stops

theorem reads_boolean (b : Bool) : Reads boolean (· = Bytes.ofText (compact (.boolean b))) b := by
  have takes : Takes (scalar "a boolean") ScalarText := takes_scalarOr_error _
  refine .of_skip (fun bytes => by rw [boolean, boolean, takes.skip]) ?_
  rintro _ rest rfl stops
  have isWord : ScalarText (Bytes.ofText (compact (.boolean b))) (.boolean b) := by
    cases b <;> exact .word rfl
  rw [boolean, takes.complete isWord stops]
  rfl

theorem reads_double (n : Number) : Reads double (NumberText · n) n.toFloat := by
  have takes : Takes (scalar "f64") ScalarText := takes_scalarOr_error _
  refine .of_skip (fun bytes => by rw [double, double, takes.skip]) ?_
  intro text rest isNumber stops
  rw [double, takes.complete (.number isNumber) stops]
  rfl

/-- What a double that is not finite is written as is not a double. -/
theorem double_null {before rest : Bytes} (blank : IsBlanks before) (stops : Stops rest) :
    double (before ++ (Bytes.ofText "null" ++ rest)) = .error (.wrongType .null "f64") := by
  have takes : Takes (scalar "f64") ScalarText := takes_scalarOr_error _
  have isNull : ScalarText (Bytes.ofText "null") .null := .word rfl
  rw [double, ← takes.skip, takes.skipBlanks_append blank isNull, takes.complete isNull stops]
  rfl

/-! ## Lists and objects -/

/-- How a value is written: on one line, or over several lines from a level on. -/
inductive Style where
  | oneLine
  | lines (level : Nat)

namespace Style

def text : Style → Value → String
  | oneLine => compact
  | lines level => pretty level

/-- How the parts of a list or an object are written. -/
def inside : Style → Style
  | oneLine => oneLine
  | lines level => lines (level + 1)

/-- What stands in front of a part and of the end. -/
def gap : Style → String
  | oneLine => ""
  | lines level => newLine level

def colonText : Style → String
  | oneLine => ":"
  | lines _ => ": "

def memberText (style : Style) (member : String × Value) : String :=
  stringText member.1 ++ style.colonText ++ style.text member.2

/-- Parts with a comma between any two, each behind a gap. -/
def listed (style : Style) (texts : List String) : String :=
  ",".intercalate (texts.map (style.gap ++ ·))

theorem listed_singleton (style : Style) (text : String) :
    style.listed [text] = style.gap ++ text :=
  String.intercalate_singleton

theorem listed_cons_cons (style : Style) (text next : String) (texts : List String) :
    style.listed (text :: next :: texts) =
      style.gap ++ text ++ "," ++ style.listed (next :: texts) :=
  String.intercalate_cons_cons

/-- A writer of parts is known from what it writes of the first one. -/
theorem listed_map {α : Type} (style : Style) (write : α → String) {all : List α → String}
    (nil : all [] = "") (single : ∀ part, all [part] = style.gap ++ write part)
    (more : ∀ part next rest,
      all (part :: next :: rest) = style.gap ++ write part ++ "," ++ all (next :: rest)) :
    ∀ parts, style.listed (parts.map write) = all parts
  | [] => nil.symm
  | [part] => by rw [single, List.map_singleton, listed_singleton]
  | part :: next :: rest => by
    rw [more, ← listed_map style write nil single more (next :: rest), List.map_cons, List.map_cons,
      listed_cons_cons]

theorem listed_compactItems (items : List Value) :
    oneLine.listed (items.map oneLine.text) = compactItems items :=
  listed_map _ _ rfl (fun _ => by simp [gap, text, compactItems])
    (fun _ _ _ => by simp [gap, text, compactItems]) items

theorem listed_compactMembers (members : List (String × Value)) :
    oneLine.listed (members.map oneLine.memberText) = compactMembers members :=
  listed_map _ _ rfl (fun _ => by simp [gap, text, memberText, colonText, compactMembers])
    (fun _ _ _ => by simp [gap, text, memberText, colonText, compactMembers]) members

theorem listed_prettyItems (level : Nat) (items : List Value) :
    (lines level).listed (items.map (lines level).text) = prettyItems level items :=
  listed_map _ _ rfl (fun _ => by simp [gap, text, prettyItems])
    (fun _ _ _ => by simp [gap, text, prettyItems]) items

theorem listed_prettyMembers (level : Nat) (members : List (String × Value)) :
    (lines level).listed (members.map (lines level).memberText) = prettyMembers level members :=
  listed_map _ _ rfl
    (fun _ => by simp [gap, text, memberText, colonText, prettyMembers, String.append_assoc])
    (fun _ _ _ => by simp [gap, text, memberText, colonText, prettyMembers, String.append_assoc])
    members

theorem text_list (style : Style) (item : Value) (items : List Value) :
    style.text (.list (item :: items)) =
      "[" ++ style.inside.listed ((item :: items).map style.inside.text) ++ style.gap ++ "]" := by
  cases style with
  | oneLine => rw [inside, listed_compactItems, text, compact, gap, String.append_empty]
  | lines level => rw [inside, listed_prettyItems, text, pretty, gap]

theorem text_object (style : Style) (member : String × Value) (members : List (String × Value)) :
    style.text (.object (member :: members)) =
      "\x7b" ++ style.inside.listed ((member :: members).map style.inside.memberText) ++
        style.gap ++ "\x7d" := by
  cases style with
  | oneLine => rw [inside, listed_compactMembers, text, compact, gap, String.append_empty]
  | lines level => rw [inside, listed_prettyMembers, text, pretty, gap]

theorem isBlanks_gap (style : Style) : IsBlanks (Bytes.ofText style.gap) := by
  cases style with
  | oneLine => exact .nil
  | lines level =>
    have front : IsBlanks (Bytes.ofText "\n") := List.forall_mem_singleton.2 rfl
    rw [gap, newLine, Bytes.ofText_append]
    refine front.append fun b mem => ?_
    rw [Bytes.ofText, String.toList_ofList] at mem
    obtain ⟨c, mem, encoded⟩ := List.mem_flatMap.1 mem
    obtain rfl := List.eq_of_mem_replicate mem
    obtain rfl : b = 0x20 := List.mem_singleton.1 encoded
    rfl

section
variable {α : Type} {Part : Bytes → α → Prop}

/-- What is listed is a sequence of parts, behind the first gap. -/
theorem sequence_listed (style : Style) {after : Bytes} (blank : IsBlanks after) {first : String}
    {part : α} {texts : List String} {parts : List α} (isFirst : Part (Bytes.ofText first) part)
    (each : List.Forall₂ (fun text part => Part (Bytes.ofText text) part) texts parts) :
    ∃ text, Bytes.ofText (style.listed (first :: texts)) ++ after =
      Bytes.ofText style.gap ++ text ∧ Sequence Part text (part :: parts) := by
  induction each generalizing first part with
  | nil =>
    refine ⟨Bytes.ofText first ++ after, ?_, .last isFirst blank⟩
    rw [listed_singleton, Bytes.ofText_append, List.append_assoc]
  | @cons next part' texts parts isNext others ih =>
    obtain ⟨inner, split, sequence⟩ := ih isNext
    refine ⟨_, ?_, .more isFirst .nil style.isBlanks_gap sequence⟩
    have mark : Bytes.ofText "," = [comma] := rfl
    rw [← split, listed_cons_cons]
    simp [mark]

theorem enclosed_listed (style : Style) (kind : Composite) {texts : List String} {parts : List α}
    (each : List.Forall₂ (fun text part => Part (Bytes.ofText text) part) texts parts)
    (nonempty : texts ≠ []) :
    Enclosed kind Part (kind.opening :: (Bytes.ofText (style.inside.listed texts) ++
      (Bytes.ofText style.gap ++ [kind.closing]))) parts := by
  cases each with
  | nil => exact absurd rfl nonempty
  | cons isFirst others =>
    obtain ⟨text, split, sequence⟩ :=
      style.inside.sequence_listed style.isBlanks_gap isFirst others
    rw [← List.append_assoc, split, List.append_assoc]
    exact .filled style.inside.isBlanks_gap sequence

end

/-- A list is written as a list of what is written of its items. -/
theorem enclosed_list {Part : Bytes → Value → Prop} (style : Style) {items parts : List Value}
    (each : List.Forall₂ (fun item part => Part (Bytes.ofText (style.inside.text item)) part)
      items parts) : Enclosed .list Part (Bytes.ofText (style.text (.list items))) parts := by
  cases each with
  | nil =>
    have empty : style.text (.list []) = "[]" := by
      cases style <;> simp [text, compact, compactItems, pretty]
    rw [empty]
    exact .empty .nil
  | @cons item part items parts isFirst others =>
    have front : Bytes.ofText "[" = [openList] := rfl
    have back : Bytes.ofText "]" = [closeList] := rfl
    rw [text_list]
    simp only [Bytes.ofText_append, front, back, List.append_assoc]
    exact style.enclosed_listed .list
      (List.forall₂_map_left_iff.2 (.cons isFirst others)) (List.cons_ne_nil _ _)

/-- An object is written as an object of what is written of its members. -/
theorem enclosed_object {α : Type} {Part : Bytes → α → Prop} (style : Style)
    {members : List (String × Value)} {parts : List α}
    (each : List.Forall₂
      (fun member part => Part (Bytes.ofText (style.inside.memberText member)) part) members parts) :
    Enclosed .object Part (Bytes.ofText (style.text (.object members))) parts := by
  cases each with
  | nil =>
    have empty : style.text (.object []) = "\x7b\x7d" := by
      cases style <;> simp [text, compact, compactMembers, pretty]
    rw [empty]
    exact .empty .nil
  | cons isFirst others =>
    have front : Bytes.ofText "\x7b" = [openObject] := rfl
    have back : Bytes.ofText "\x7d" = [closeObject] := rfl
    rw [text_object]
    simp only [Bytes.ofText_append, front, back, List.append_assoc]
    exact style.enclosed_listed .object
      (List.forall₂_map_left_iff.2 (.cons isFirst others)) (List.cons_ne_nil _ _)

/-- A member as its name and the text of its value. -/
def written (style : Style) (member : String × Value) : String × Bytes :=
  (member.1, Bytes.ofText (style.text member.2))

theorem isBlanks_colonText (style : Style) : ∃ blanks, IsBlanks blanks ∧
    Bytes.ofText style.colonText = colon :: blanks := by
  cases style with
  | oneLine => exact ⟨[], .nil, rfl⟩
  | lines level =>
    have split : Bytes.ofText ": " = [colon, 0x20] := by decide
    exact ⟨[0x20], List.forall_mem_singleton.2 rfl, split⟩

theorem namedText_written (style : Style) (member : String × Value) :
    NamedText (Bytes.ofText (style.memberText member)) (style.written member) := by
  obtain ⟨name, name_eq, isName⟩ := stringText_written member.1
  obtain ⟨blanks, blank, colon_eq⟩ := style.isBlanks_colonText
  refine ⟨name, [], blanks, isName, .nil, blank, ?_⟩
  rw [memberText, Bytes.ofText_append, Bytes.ofText_append, name_eq, colon_eq]
  simp [written]

/-- An object has the members that were written. -/
theorem enclosed_written (style : Style) (members : List (String × Value)) :
    Enclosed .object NamedText (Bytes.ofText (style.text (.object members)))
      (members.map style.inside.written) := by
  refine style.enclosed_object (List.forall₂_map_right_iff.2 (List.forall₂_same.2 fun member _ => ?_))
  exact style.inside.namedText_written member

end Style

theorem sortMembers_perm (members : List (String × Value)) :
    (sortMembers members).Perm members :=
  List.mergeSort_perm ..

/-- In either order an object has the same members. -/
theorem MemberOrder.exists_perm (order : MemberOrder) (members : List (String × Value)) :
    ∃ listed, listed.Perm members ∧ order.object members = .object listed := by
  cases order with
  | declared => exact ⟨members, .refl _, rfl⟩
  | byName => exact ⟨sortMembers members, sortMembers_perm members, rfl⟩

/-- In which order an object lists its members makes no difference to what it tells. -/
theorem recordText_object {forms : List FieldForm} {members : List (String × Value)}
    (style : Style) (tells : Tells forms (members.map style.inside.written)) (order : MemberOrder) :
    RecordText forms (Bytes.ofText (style.text (order.object members))) := by
  obtain ⟨listed, perm, object⟩ := order.exists_perm members
  rw [object]
  exact ⟨_, style.enclosed_written listed, tells.perm (perm.symm.map style.inside.written)⟩

end TokenTariff.Json
