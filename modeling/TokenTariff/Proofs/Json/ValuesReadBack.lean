import TokenTariff.Proofs.Dictionary
import TokenTariff.Proofs.Json.DoublesReadBack
import TokenTariff.Proofs.Json.Written
/-!
# What is read back of a value

The text of a value is read as that value with its doubles read back, and `null` for those that are
not finite, as long as its whole numbers have 64 bits, its lists and objects are not nested too deep,
and no member has the name for embedded documents.

* `Value.readBack`: what is read;
* `Value.Fits`: which values are read;
* `valueText_written`: every such value, in either style.
-/

namespace TokenTariff.Json
set_option autoImplicit false

namespace Value

mutual

/-- A value as it is read back. -/
def readBack : Value → Value
  | null => null
  | boolean b => boolean b
  | number (.integer n) => number (.integer n)
  | number (.double x) => if x.isFinite then number (.double (Json.readBack x)) else null
  | string text => string text
  | list items => list (readBackItems items)
  | object members => object (readBackMembers members)

def readBackItems : List Value → List Value
  | [] => []
  | item :: items => item.readBack :: readBackItems items

def readBackMembers : List (String × Value) → List (String × Value)
  | [] => []
  | (name, value) :: members => (name, value.readBack) :: readBackMembers members

end

theorem readBackItems_eq (items : List Value) : readBackItems items = items.map readBack := by
  induction items with
  | nil => rw [readBackItems, List.map_nil]
  | cons item items ih => rw [readBackItems, ih, List.map_cons]

theorem readBackMembers_eq (members : List (String × Value)) :
    readBackMembers members = members.map fun member => (member.1, member.2.readBack) := by
  induction members with
  | nil => rw [readBackMembers, List.map_nil]
  | cons member members ih => rw [readBackMembers, ih, List.map_cons]

/-- A scalar that is read back: whole numbers have to be those that are read as such. -/
def IsScalar : Value → Prop
  | number (.integer n) => -0x8000000000000000 ≤ n ∧ n < significandLimit
  | list _ | object _ => False
  | null | boolean _ | number (.double _) | string _ => True

/-- A value that is read back, with lists and objects nested at most `depth` deep. -/
def Fits : (depth : Nat) → Value → Prop
  | depth + 1, list items => ∀ item ∈ items, item.Fits depth
  | depth + 1, object members =>
    embeddingName ∉ members.map (·.1) ∧ ∀ member ∈ members, member.2.Fits depth
  | _, v => v.IsScalar

theorem isScalar_boolean (b : Bool) : (boolean b).IsScalar :=
  trivial

theorem not_isEmbedding_readBack {members : List (String × Value)}
    (plain : embeddingName ∉ members.map (·.1)) :
    ¬ (object (readBackMembers members)).IsEmbedding := by
  cases members with
  | nil => exact id
  | cons member members =>
    rw [List.map_cons, List.mem_cons, not_or] at plain
    exact Ne.symm plain.1

theorem IsScalar.fits {v : Value} (h : v.IsScalar) : ∀ depth, v.Fits depth
  | 0 => h
  | _ + 1 => by
    cases v with
    | list _ | object _ => exact h.elim
    | _ => exact h

end Value

theorem Style.text_of_isScalar (style : Style) {v : Value} (scalar : v.IsScalar) :
    style.text v = compact v := by
  cases style with
  | oneLine => rfl
  | lines level =>
    cases v with
    | list _ | object _ => exact scalar.elim
    | _ => rfl

theorem scalarText_written (style : Style) {v : Value} (scalar : v.IsScalar) :
    ScalarText (Bytes.ofText (style.text v)) v.readBack := by
  rw [style.text_of_isScalar scalar]
  cases v with
  | null => exact .word (b := 0x6E) rfl
  | boolean b => cases b with
    | false => exact .word (b := 0x66) rfl
    | true => exact .word (b := 0x74) rfl
  | number n =>
    cases n with
    | integer n => exact .number (numberText_int scalar.1 scalar.2)
    | double x =>
      rw [compact, Value.readBack]
      cases finite : x.isFinite with
      | true => exact .number (numberText_readBack finite).1
      | false =>
        rw [numberText_not_finite finite]
        exact .word (b := 0x6E) rfl
  | string string =>
    obtain ⟨body, split, isText⟩ := stringText_written string
    rw [compact, split]
    exact .string isText
  | list _ | object _ => exact scalar.elim

theorem memberText_of_namedText {Text : Bytes → Value → Prop} {text inner : Bytes} {name : String}
    {v : Value} (named : NamedText text (name, inner)) (isText : Text inner v) :
    MemberText Text text (name, v) := by
  obtain ⟨written, after, before, isName, blank, blank', rfl⟩ := named
  exact ⟨written, after, before, inner, isName, blank, blank', isText, rfl⟩

/-- An object is written as an object of its members if each of them is read back. -/
theorem enclosed_readBack {Text : Bytes → Value → Prop} (style : Style)
    {members : List (String × Value)} (each : ∀ member ∈ members,
      Text (Bytes.ofText (style.inside.text member.2)) member.2.readBack) :
    Enclosed .object (MemberText Text) (Bytes.ofText (style.text (.object members)))
      (Value.readBackMembers members) := by
  rw [Value.readBackMembers_eq]
  refine style.enclosed_object (List.forall₂_map_right_iff.2 (List.forall₂_same.2 ?_))
  intro member mem
  exact memberText_of_namedText (style.inside.namedText_written member) (each member mem)

/-- The text of a value is read as that value with its doubles read back. -/
theorem valueText_written {depth : Nat} (style : Style) {v : Value} (fits : v.Fits depth) :
    ValueText IsEmbedded depth (Bytes.ofText (style.text v)) v.readBack := by
  induction depth generalizing style v with
  | zero => exact scalarText_written style fits
  | succ depth ih =>
    cases v with
    | list items =>
      rw [Value.readBack, Value.readBackItems_eq]
      refine .inr (.inl ⟨.list (style.enclosed_list ?_), id⟩)
      exact List.forall₂_map_right_iff.2 (List.forall₂_same.2 fun item mem =>
        ih style.inside (fits item mem))
    | object members =>
      rw [Value.readBack]
      refine .inr (.inl ⟨.object (enclosed_readBack style fun member mem => ?_), ?_⟩)
      · exact ih style.inside (fits.2 member mem)
      · exact Value.not_isEmbedding_readBack fits.1
    | _ => exact .inl (scalarText_written style fits)

/-- The text of an object is read as its members with their doubles read back. -/
theorem objectMembers_written (style : Style) {members : List (String × Value)}
    (fits : ∀ member ∈ members, member.2.Fits memberDepth) :
    whole objectMembers (Bytes.ofText (style.text (.object members))) =
      .ok (Value.readBackMembers members) := by
  have isObject : ObjectText (Bytes.ofText (style.text (.object members)))
      (Value.readBackMembers members) :=
    enclosed_readBack style fun member mem => valueText_written style.inside (fits member mem)
  exact takes_objectMembers.whole_eq_ok_iff.2
    ⟨[], _, [], .nil, .nil, isObject, (List.append_nil _).symm⟩

/-! ## Objects in either order -/

section
variable {members : List (String × Value)} (order : MemberOrder)

theorem fits_object {depth : Nat} (plain : embeddingName ∉ members.map (·.1))
    (fits : ∀ member ∈ members, member.2.Fits depth) :
    (order.object members).Fits (depth + 1) := by
  obtain ⟨listed, perm, object⟩ := order.exists_perm members
  rw [object]
  exact ⟨fun named => plain ((perm.map _).mem_iff.1 named),
    fun member mem => fits member (perm.mem_iff.1 mem)⟩

/-- An object is read back as it is if its members are. -/
theorem readBack_object (same : ∀ member ∈ members, member.2.readBack = member.2) :
    (order.object members).readBack = order.object members := by
  obtain ⟨listed, perm, object⟩ := order.exists_perm members
  rw [object, Value.readBack, Value.readBackMembers_eq]
  have kept : listed.map (fun member => (member.1, member.2.readBack)) = listed.map id :=
    List.map_congr_left fun member mem => Prod.ext rfl (same member (perm.mem_iff.1 mem))
  rw [kept, List.map_id]

/-- What stands under a name in an object that is read back. -/
theorem member?_readBack_object (distinct : members.Pairwise (·.1 ≠ ·.1)) {name : String} {v : Value}
    (mem : (name, v) ∈ members) :
    (order.object members).readBack.member? name = some v.readBack := by
  obtain ⟨listed, perm, object⟩ := order.exists_perm members
  rw [object, Value.readBack, Value.readBackMembers_eq, Value.member?]
  simp only [Value.members?, Option.bind_some]
  rw [Dictionary.lookup_eq_some_iff_mem, List.mem_reverse, List.mem_map]
  · exact ⟨(name, v), perm.mem_iff.2 mem, rfl⟩
  · rw [List.pairwise_reverse, List.pairwise_map]
    refine (perm.symm.pairwise distinct ?_).imp Ne.symm
    exact fun different => different.symm

end

end TokenTariff.Json
