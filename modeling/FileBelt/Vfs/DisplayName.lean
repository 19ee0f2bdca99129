import FileBelt.Domain.Errors
import FileBelt.Vfs.Directory

/-!
# Names that are stored and names that are listed

`NormalizedName` of the domain decides which names can be stored, and
`validate_display_name` of the VFS protocol which ones a response may hold.  The
first forbids the ASCII control characters only.
-/

namespace FileBelt

open Vfs

/-- Why a name is refused. -/
inductive NameError
  | empty | dotComponent | forbiddenCharacter | trailingSpaceOrDot | reservedDeviceName | tooLong
  deriving DecidableEq

def maxNameBytes : ℕ := 255

def eqIgnoreAsciiCase (a b : List Char) : Bool := a.map Char.toUpper == b.map Char.toUpper

/-- The four bytes of the numbered devices are all ASCII characters. -/
def isWindowsDeviceName (value : List Char) : Bool :=
  let basename := value.takeWhile (· ≠ '.')
  ["CON", "PRN", "AUX", "NUL"].any (fun reserved =>
    eqIgnoreAsciiCase basename reserved.toList) ||
  basename.length == 4 &&
    (eqIgnoreAsciiCase (basename.take 3) "COM".toList ||
      eqIgnoreAsciiCase (basename.take 3) "LPT".toList) &&
    basename.getLast?.any fun c => '1' ≤ c && c ≤ '9'

/-- `validate_display_name` of the domain. -/
def validateName (value : List Char) : Except NameError Unit :=
  if value.isEmpty then .error .empty
  else if value = ['.'] ∨ value = ['.', '.'] then .error .dotComponent
  else if value.getLast?.any fun c => c == ' ' || c == '.' then .error .trailingSpaceOrDot
  else if value.any isForbiddenNameCharacter then .error .forbiddenCharacter
  else if maxNameBytes < utf8Length value then .error .tooLong
  else if isWindowsDeviceName value then .error .reservedDeviceName
  else .ok ()

/-- A name with its key for comparison. -/
structure NormalizedName where
  display : List Char
  comparisonKey : List Char
  deriving DecidableEq

/-- `NormalizedName::new`; the two Unicode tables are parameters. -/
def NormalizedName.new (nfc caseFold : List Char → List Char) (value : List Char) :
    Except NameError NormalizedName := do
  let display := nfc value
  validateName display
  return { display := display, comparisonKey := caseFold display }

/-- The control characters outside ASCII. -/
def isC1Control (c : Char) : Bool := 0x80 ≤ c.toNat && c.toNat < 0xA0

variable {value : List Char} {c : Char}

theorem storable_of_validateName (h : validateName value = .ok ()) : StorableName value := by
  obtain ⟨hempty, h⟩ := else_of_ok h
  obtain ⟨hdots, h⟩ := else_of_ok h
  obtain ⟨-, h⟩ := else_of_ok h
  obtain ⟨hcharacters, h⟩ := else_of_ok h
  obtain ⟨hlength, -⟩ := else_of_ok h
  rw [not_or] at hdots
  refine ⟨fun hnil => hempty (hnil ▸ rfl), hdots.1, hdots.2, fun c hc => ?_,
    Nat.le_of_not_lt hlength⟩
  rw [Bool.eq_false_iff]
  exact fun hforbidden => hcharacters (List.any_eq_true.mpr ⟨c, hc, hforbidden⟩)

/-- Of a storable name the protocol refuses the other control characters. -/
theorem isControl_of_storable (h : StorableName value) (hc : c ∈ value) :
    isControl c = isC1Control c := by
  have hallowed := (Bool.or_eq_false_iff.mp (h.characters c hc)).1
  simp only [isAsciiControl, Bool.or_eq_false_iff, decide_eq_false_iff_not,
    beq_eq_false_iff_ne] at hallowed
  rw [isControl, isC1Control, Bool.eq_iff_iff]
  simp only [Bool.or_eq_true, Bool.and_eq_true, decide_eq_true_eq]
  omega

/-- A stored name can be listed exactly if it has no control character. -/
theorem NormalizedName.validateDisplayName_iff {nfc caseFold : List Char → List Char}
    {name : NormalizedName} (h : NormalizedName.new nfc caseFold value = .ok name) :
    validateDisplayName name.display ↔ name.display.any isC1Control = false := by
  obtain ⟨_, hvalid, h⟩ := bind_eq_ok h
  obtain rfl := Except.ok.inj h
  have hstorable := storable_of_validateName hvalid
  rw [validateDisplayName_storable_iff hstorable, List.any_eq_false]
  refine forall₂_congr fun c hc => ?_
  rw [isControl_of_storable hstorable hc, Bool.eq_false_iff]

theorem NormalizedName.validateDisplayName_readme :
    validateDisplayName "Readme.md".toList := by
  have hname : NormalizedName.new id id "Readme.md".toList =
      .ok ⟨"Readme.md".toList, "Readme.md".toList⟩ := rfl
  exact (NormalizedName.validateDisplayName_iff hname).mpr (by decide)

/-- The next-line character can be stored, and no listing that shows it is valid. -/
theorem NormalizedName.nextLine_not_listed :
    NormalizedName.new id id ['\u0085'] = .ok ⟨['\u0085'], ['\u0085']⟩ ∧
      validateDisplayName ['\u0085'] = false ∧
      ∀ entries : List ListedEntry, (∃ entry ∈ entries, entry.displayName = ['\u0085']) →
        validateEntries entries = false := by
  have hname : validateDisplayName ['\u0085'] = false := by decide
  refine ⟨by rfl, hname, ?_⟩
  rintro entries ⟨entry, hentry, hdisplay⟩
  rw [validateEntries, Bool.and_eq_false_iff, List.all_eq_false]
  refine .inr ⟨entry, hentry, ?_⟩
  rw [hdisplay, hname, Bool.and_false]
  exact Bool.false_ne_true

end FileBelt
