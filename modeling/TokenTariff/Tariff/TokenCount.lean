/-!
# Token counts

A number of tokens is a whole number of the signed 64-bit range. Arithmetic on counts is that of
the whole numbers, and a result outside of the range becomes the end of the range that it passed.
Only `wrappingAdd` keeps the low 64 bits of a sum.

* `TokenCount.clamp` and `TokenCount.wrap` bring a whole number into the range;
* `clamp_val` and `wrap_val` say that they keep what is in the range.
-/

namespace TokenTariff
set_option autoImplicit false

/-- A whole number from `-2 ^ 63` to `2 ^ 63 - 1`. -/
structure TokenCount where
  val : Int
  least : -0x8000000000000000 ≤ val
  greatest : val < 0x8000000000000000

namespace TokenCount

/-- Whether a whole number is a count. -/
def InRange (n : Int) : Prop :=
  -0x8000000000000000 ≤ n ∧ n < 0x8000000000000000

instance (n : Int) : Decidable (InRange n) :=
  inferInstanceAs (Decidable (_ ∧ _))

theorem ext {a b : TokenCount} (h : a.val = b.val) : a = b := by
  cases a; cases b; cases h; rfl

instance : DecidableEq TokenCount := fun a b =>
  if h : a.val = b.val then isTrue (ext h) else isFalse fun e => h (e ▸ rfl)

/-- The count nearest to a whole number. -/
def clamp (n : Int) : TokenCount where
  val := max (-0x8000000000000000) (min n 0x7FFFFFFFFFFFFFFF)
  least := by omega
  greatest := by omega

theorem clamp_val {n : Int} (least : -0x8000000000000000 ≤ n)
    (greatest : n < 0x8000000000000000) : (clamp n).val = n := by
  simp only [clamp]; omega

@[simp] theorem clamp_self (a : TokenCount) : clamp a.val = a :=
  ext (clamp_val a.least a.greatest)

/-- The count with the same low 64 bits as a whole number. -/
def wrap (n : Int) : TokenCount where
  val := n.bmod 0x10000000000000000
  least := Int.le_bmod (by decide)
  greatest := Int.bmod_lt (by decide)

theorem wrap_val {n : Int} (inRange : InRange n) : (wrap n).val = n :=
  Int.bmod_eq_of_le inRange.1 inRange.2

/-- The count of a whole number in the range. -/
def ofInt? (n : Int) : Option TokenCount :=
  if h : -0x8000000000000000 ≤ n ∧ n < 0x8000000000000000 then some ⟨n, h.1, h.2⟩ else none

def zero : TokenCount := clamp 0

instance : Inhabited TokenCount := ⟨zero⟩

def add (a b : TokenCount) : TokenCount := clamp (a.val + b.val)

def wrappingAdd (a b : TokenCount) : TokenCount := wrap (a.val + b.val)

def sub (a b : TokenCount) : TokenCount := clamp (a.val - b.val)

instance : Add TokenCount := ⟨add⟩

instance : Sub TokenCount := ⟨sub⟩

theorem val_add (a b : TokenCount) : (a + b).val = (clamp (a.val + b.val)).val := rfl

theorem val_sub (a b : TokenCount) : (a - b).val = (clamp (a.val - b.val)).val := rfl

/-- The count, or zero if it is negative. -/
def nonnegative (a : TokenCount) : TokenCount := clamp (max a.val 0)

def toFloat (a : TokenCount) : Float := Float.ofInt a.val

end TokenCount

end TokenTariff
