import FileBelt.Domain.Errors
import FileBelt.Nfs.Uuid

/-!
# The ONLYOFFICE egress policy

The policy admits a URL of one origin below one path prefix. An upstream may
decode the path and remove its dot segments any number of times: the scan of
`hasAmbiguousPathEncoding` leaves nothing for a second round to find.
-/

namespace FileBelt.Egress

open Support.Protobuf (Byte)
open Nfs (ascii hexByte hexDigitValue)

/-- Why a request is not admitted. -/
inductive PolicyError
  | invalidControl | targetDenied | pathDenied | requestTooLarge
  deriving DecidableEq

/-- What the policy reads of a parsed URL. -/
structure Url (Origin : Type) where
  asStr : String
  scheme : String
  origin : Origin
  username : String
  password : Option String
  fragment : Option String
  path : List Byte

/-- The origin, path prefix and response limit a document server is held to. -/
structure OnlyofficeRequestPolicy (Origin : Type) where
  origin : Url Origin
  pathPrefix : List Byte
  responseLimit : ℕ

/-- What a caller asks for. -/
structure OnlyofficeFetchRequest where
  url : String
  maximumBytes : ℕ

/-- What is sent. -/
structure AdmittedOnlyofficeRequest (Origin : Type) where
  target : Url Origin
  maximumBytes : ℕ

def slash : Byte := 0x2F

def backslash : Byte := 0x5C

def percent : Byte := 0x25

/-- `u8::is_ascii_control`. -/
def isAsciiControl (b : Byte) : Bool := b < 0x20 || b == 0x7F

/-- A segment that a server may resolve. -/
def IsDot (segment : List Byte) : Prop := segment = ascii "." ∨ segment = ascii ".."

instance (segment : List Byte) : Decidable (IsDot segment) :=
  inferInstanceAs (Decidable (_ ∨ _))

/-- The test of the path prefix in `OnlyofficeTarget::policy`. -/
def validPathPrefix (pathPrefix : List Byte) : Bool :=
  !(decide (256 < pathPrefix.length) || pathPrefix.head? != some slash ||
    pathPrefix.getLast? != some slash || pathPrefix.contains percent ||
    pathPrefix.contains backslash || (pathPrefix.splitOn slash).any fun segment => IsDot segment)

/-- `u8::from_str_radix` of a text of two bytes. A text that is not ASCII has no
value either, so the test of its UTF-8 before is covered. -/
def fromStrRadix (first second : Byte) : Option Byte :=
  if first == 0x2B && hexByte second then some (UInt8.ofNat (hexDigitValue second))
  else if hexByte first && hexByte second then
    some (UInt8.ofNat (16 * hexDigitValue first + hexDigitValue second))
  else none

/-- The decoded bytes that the scan refuses. -/
def ambiguous (decoded : Byte) : Bool :=
  decoded ≤ 0x20 || (ascii "#%./?\\").contains decoded || decoded == 0x7F

/-- The scan of the raw path: bytes and escapes that a server might read as structure. -/
def hasAmbiguousPathEncoding : List Byte → Bool
  | [] => false
  | b :: rest =>
    if b == backslash || isAsciiControl b then true
    else if b == percent then
      match rest with
      | first :: second :: rest =>
        match fromStrRadix first second with
        | some decoded => ambiguous decoded || hasAmbiguousPathEncoding rest
        | none => true
      | _ => true
    else hasAmbiguousPathEncoding rest

def rejectTransferCoding (headers : List (String × String)) : Except PolicyError Unit :=
  if headers.any fun header => header.1 == "transfer-encoding" || header.1 == "content-encoding"
  then .error .invalidControl else .ok ()

section Policy

variable {Origin : Type} [DecidableEq Origin] {path : List Byte} {b : Byte}

/-- `OnlyofficeRequestPolicy::admit`, with the URL library's parser. -/
def OnlyofficeRequestPolicy.admission (policy : OnlyofficeRequestPolicy Origin)
    (parse : String → Option (Url Origin)) (headers : List (String × String))
    (request : OnlyofficeFetchRequest) : Except PolicyError (AdmittedOnlyofficeRequest Origin) := do
  rejectTransferCoding headers
  let target ← okOr (parse request.url) .targetDenied
  if target.asStr ≠ request.url ∨ target.scheme ≠ "https" ∨
      target.origin ≠ policy.origin.origin ∨ target.username ≠ "" ∨
      target.password.isSome ∨ target.fragment.isSome then
    .error .targetDenied
  else if !policy.pathPrefix.isPrefixOf target.path || hasAmbiguousPathEncoding target.path then
    .error .pathDenied
  else if 1 ≤ request.maximumBytes ∧ request.maximumBytes ≤ policy.responseLimit then
    .ok ⟨target, request.maximumBytes⟩
  else .error .requestTooLarge

/-- One round of decoding; a percent sign without two digits stays. -/
def percentDecode : List Byte → List Byte
  | [] => []
  | b :: first :: second :: rest =>
    if b == percent && hexByte first && hexByte second then
      UInt8.ofNat (16 * hexDigitValue first + hexDigitValue second) :: percentDecode rest
    else b :: percentDecode (first :: second :: rest)
  | b :: rest => b :: percentDecode rest

/-- The segments that stay: `.` goes, `..` takes the one before with it, and
either of them at the end leaves its slash. -/
def resolveDots (output : List (List Byte)) : List (List Byte) → List (List Byte)
  | [] => output
  | segment :: rest =>
    let slashed := if rest = [] then [[]] else []
    if segment = ascii "." then resolveDots (output ++ slashed) rest
    else if segment = ascii ".." then resolveDots (output.dropLast ++ slashed) rest
    else resolveDots (output ++ [segment]) rest

/-- One round of resolving the dot segments of an absolute path. -/
def removeDotSegments : List Byte → List Byte
  | [] => []
  | b :: rest =>
    if b = slash then b :: [slash].intercalate (resolveDots [] (rest.splitOn slash))
    else b :: rest

/-- What a server may do to a path, any number of times and in any order. -/
inductive Round
  | percentDecode | removeDotSegments

def Round.apply (path : List Byte) : Round → List Byte
  | .percentDecode => Egress.percentDecode path
  | .removeDotSegments => Egress.removeDotSegments path

/-- No segment is a dot segment. -/
def NoDots (path : List Byte) : Prop := ∀ segment ∈ path.splitOn slash, ¬IsDot segment

/-- A byte that the scan lets through. -/
abbrev Plain (b : Byte) : Prop := b ≠ backslash ∧ isAsciiControl b = false

/-- A path below the prefix that has nothing to resolve. -/
structure Contained (pathPrefix path : List Byte) : Prop where
  below : pathPrefix <+: path
  noDots : NoDots path
  plain : ∀ b ∈ path, Plain b

/-- What a path that passed the scan decodes to: an escape stands for a byte
that means nothing in a path. -/
inductive Decodes : List Byte → List Byte → Prop
  | nil : Decodes [] []
  | plain {b path decoded} (hb : b ≠ percent) (hplain : Plain b) (h : Decodes path decoded) :
      Decodes (b :: path) (b :: decoded)
  | escape {first second b path decoded} (hfirst : hexByte first)
      (hsecond : hexByte second) (hb : ambiguous b = false) (h : Decodes path decoded) :
      Decodes (percent :: first :: second :: path) (b :: decoded)

theorem percentDecode_cons (hb : b ≠ percent) (rest : List Byte) :
    percentDecode (b :: rest) = b :: percentDecode rest := by
  match rest with
  | [] => rfl
  | [_] => rfl
  | _ :: _ :: _ => rw [percentDecode, if_neg (by simp [hb])]

theorem percentDecode_append (h : percent ∉ path) (rest : List Byte) :
    percentDecode (path ++ rest) = path ++ percentDecode rest := by
  induction path with
  | nil => rfl
  | cons b path ih =>
    simp only [List.mem_cons, not_or] at h
    rw [List.cons_append, percentDecode_cons (Ne.symm h.1), ih h.2, List.cons_append]

theorem forall_byte {p : Byte → Prop} (h : ∀ n, p (.ofFin n)) (b : Byte) : p b := h b.toFin

theorem hexByte_plain : ∀ {b}, hexByte b → b ≠ slash ∧ Plain b :=
  @(forall_byte (by decide +kernel))

theorem ambiguous_plain :
    ∀ {b}, ambiguous b = false → b ≠ slash ∧ b ≠ percent ∧ b ≠ 0x2E ∧ Plain b :=
  @(forall_byte (by decide +kernel))

theorem ambiguous_digit :
    ∀ {b}, hexByte b → ambiguous (UInt8.ofNat (hexDigitValue b)) :=
  @(forall_byte (by decide +kernel))

/-- An escape that the scan passes is two digits: after a sign only the values
of one digit are left, and those are refused. -/
theorem fromStrRadix_passed {first second decoded : Byte}
    (h : fromStrRadix first second = some decoded) (hdecoded : ambiguous decoded = false) :
    hexByte first ∧ hexByte second ∧
      decoded = UInt8.ofNat (16 * hexDigitValue first + hexDigitValue second) := by
  unfold fromStrRadix at h
  split at h
  · next hsign =>
    simp only [Bool.and_eq_true] at hsign
    rw [← Option.some.inj h, ambiguous_digit hsign.2] at hdecoded
    cases hdecoded
  · split at h
    · next hdigits =>
      simp only [Bool.and_eq_true] at hdigits
      exact ⟨hdigits.1, hdigits.2, (Option.some.inj h).symm⟩
    · cases h

theorem decodes_of_scan (h : hasAmbiguousPathEncoding path = false) :
    Decodes path (percentDecode path) := by
  fun_induction hasAmbiguousPathEncoding path with
  | case1 => exact .nil
  | case2 => cases h
  | case3 b hb hpercent first second rest decoded hdecoded ih =>
    obtain ⟨hpassed, hrest⟩ := Bool.or_eq_false_iff.mp h
    obtain ⟨hfirst, hsecond, rfl⟩ := fromStrRadix_passed hdecoded hpassed
    rw [percentDecode, if_pos (by simp [hpercent, hfirst, hsecond]), eq_of_beq hpercent]
    exact .escape hfirst hsecond hpassed (ih hrest)
  | case4 => cases h
  | case5 => cases h
  | case6 b rest hplain hpercent ih =>
    rw [percentDecode_cons (by simpa using hpercent)]
    exact .plain (by simpa using hpercent) (by simpa [Plain] using hplain) (ih h)

theorem splitOn_cons (hb : b ≠ slash) :
    (b :: path).splitOn slash = (path.splitOn slash).modifyHead (b :: ·) := by
  rw [List.splitOn_cons_eq_if_modifyHead, if_neg (by simpa using hb)]

theorem modifyHead_decodes {paths decodeds : List (List Byte)} {f g : List Byte → List Byte}
    (h : List.Forall₂ Decodes paths decodeds)
    (hhead : ∀ {path decoded}, Decodes path decoded → Decodes (f path) (g decoded)) :
    List.Forall₂ Decodes (paths.modifyHead f) (decodeds.modifyHead g) := by
  cases h with
  | nil => exact .nil
  | cons h hrest => exact .cons (hhead h) hrest

section Decoded

variable {path decoded : List Byte} (h : Decodes path decoded)
include h

theorem Decodes.clean : percent ∉ decoded ∧ ∀ b ∈ path ++ decoded, Plain b := by
  induction h with
  | nil => simp
  | plain hb hplain h ih => grind
  | escape hfirst hsecond hb h ih =>
    have hdecoded := ambiguous_plain hb
    have hdigits := And.intro (hexByte_plain hfirst) (hexByte_plain hsecond)
    have hpercent : Plain percent := ⟨by decide, by decide⟩
    grind

theorem Decodes.splitOn : List.Forall₂ Decodes (path.splitOn slash) (decoded.splitOn slash) := by
  induction h with
  | nil => exact .cons .nil .nil
  | plain hb hplain h ih =>
    rw [List.splitOn_cons_eq_if_modifyHead, List.splitOn_cons_eq_if_modifyHead]
    split
    · exact .cons .nil ih
    · exact modifyHead_decodes ih fun h => .plain hb hplain h
  | escape hfirst hsecond hb h ih =>
    rw [splitOn_cons (by decide), splitOn_cons (hexByte_plain hfirst).1,
      splitOn_cons (hexByte_plain hsecond).1, splitOn_cons (ambiguous_plain hb).1,
      List.modifyHead_modifyHead, List.modifyHead_modifyHead]
    exact modifyHead_decodes ih fun h => .escape hfirst hsecond hb h

theorem Decodes.isDot (hdot : IsDot decoded) : path = decoded := by
  have hdots : ∀ b ∈ decoded, b = 0x2E := by
    rcases hdot with rfl | rfl <;> decide +kernel
  clear hdot
  induction h with
  | nil => rfl
  | plain hb hplain h ih => rw [ih (List.forall_mem_cons.mp hdots).2]
  | escape hfirst hsecond hb h ih =>
    exact absurd (hdots _ List.mem_cons_self) (ambiguous_plain hb).2.2.1

theorem Decodes.noDots (hdots : NoDots path) : NoDots decoded := by
  have hboth := (List.forall₂_and_left _ _).mpr ⟨hdots, h.splitOn⟩
  have hflip : List.Forall₂ (fun segment raw => ¬IsDot segment ∧ Decodes raw segment)
      (decoded.splitOn slash) (path.splitOn slash) :=
    (hboth.imp fun _ _ hraw => ⟨fun hdot => hraw.1 (hraw.2.isDot hdot ▸ hdot), hraw.2⟩).flip
  exact ((List.forall₂_and_left _ _).mp hflip).1

end Decoded

theorem resolveDots_eq {segments : List (List Byte)} (h : ∀ segment ∈ segments, ¬IsDot segment)
    (output : List (List Byte)) : resolveDots output segments = output ++ segments := by
  induction segments generalizing output with
  | nil => rw [resolveDots, List.append_nil]
  | cons segment rest ih =>
    have hsegment := not_or.mp (h segment List.mem_cons_self)
    rw [resolveDots, if_neg hsegment.1, if_neg hsegment.2,
      ih (List.forall_mem_cons.mp h).2, List.append_assoc, List.singleton_append]

theorem removeDotSegments_eq (h : NoDots path) : removeDotSegments path = path := by
  cases path with
  | nil => rfl
  | cons b rest =>
    rw [removeDotSegments]
    split
    · next hb =>
      rw [NoDots, List.splitOn_cons_eq_if_modifyHead, if_pos (by simp [hb])] at h
      rw [resolveDots_eq (List.forall_mem_cons.mp h).2, List.nil_append,
        List.intercalate_splitOn]
    · rfl

/-- The first round of decoding is the last one to change the path. -/
theorem Decodes.rounds (h : Decodes path (percentDecode path)) (hdots : NoDots path)
    (rounds : List Round) :
    rounds.foldl Round.apply path = path ∨ rounds.foldl Round.apply path = percentDecode path := by
  have hdecoded := h.noDots hdots
  have hfixed : percentDecode (percentDecode path) = percentDecode path := by
    simpa [percentDecode] using percentDecode_append h.clean.1 []
  refine List.foldlRecOn (motive := fun p => p = path ∨ p = percentDecode path) rounds _
    (.inl rfl) ?_
  rintro _ (rfl | rfl) round -
  · cases round
    · exact .inr rfl
    · exact .inl (removeDotSegments_eq hdots)
  · cases round
    · exact .inr hfixed
    · exact .inr (removeDotSegments_eq hdecoded)

section

variable {parse : String → Option (Url Origin)} {policy : OnlyofficeRequestPolicy Origin}
  {headers : List (String × String)} {request : OnlyofficeFetchRequest}
  {admitted : AdmittedOnlyofficeRequest Origin}

theorem OnlyofficeRequestPolicy.admission_eq_ok
    (h : policy.admission parse headers request = .ok admitted) :
    parse request.url = some admitted.target ∧ admitted.target.scheme = "https" ∧
      admitted.target.origin = policy.origin.origin ∧ policy.pathPrefix <+: admitted.target.path ∧
      hasAmbiguousPathEncoding admitted.target.path = false := by
  obtain ⟨_, -, h⟩ := bind_eq_ok h
  obtain ⟨target, htarget, h⟩ := bind_eq_ok h
  obtain ⟨hidentity, h⟩ := else_of_ok h
  obtain ⟨hpath, h⟩ := else_of_ok h
  obtain ⟨-, h⟩ := then_of_ok h
  cases h
  simp only [not_or, not_not] at hidentity
  simp only [Bool.or_eq_true, not_or, Bool.not_eq_true] at hpath
  exact ⟨okOr_eq_ok htarget, hidentity.2.1, hidentity.2.2.1, by simpa using hpath.1, hpath.2⟩

/-- An admitted URL has the configured origin, and its path is below the prefix
with nothing to resolve after any number of rounds.  The URL library leaves no dot
segment in the path of an `https` URL. -/
theorem admitted_path_is_contained
    (hcanonical : ∀ text url, parse text = some url → url.scheme = "https" → NoDots url.path)
    (hvalid : validPathPrefix policy.pathPrefix)
    (h : policy.admission parse headers request = .ok admitted) (rounds : List Round) :
    admitted.target.origin = policy.origin.origin ∧
      Contained policy.pathPrefix (rounds.foldl Round.apply admitted.target.path) := by
  obtain ⟨hparse, hscheme, horigin, hbelow, hscan⟩ := OnlyofficeRequestPolicy.admission_eq_ok h
  have hdecodes := decodes_of_scan hscan
  have hdots := hcanonical _ _ hparse hscheme
  have hpercent : percent ∉ policy.pathPrefix := by
    simp [validPathPrefix] at hvalid
    tauto
  refine ⟨horigin, ?_⟩
  rcases hdecodes.rounds hdots rounds with hround | hround <;> rw [hround]
  · exact ⟨hbelow, hdots, fun b hb => hdecodes.clean.2 b (List.mem_append_left _ hb)⟩
  · refine ⟨?_, hdecodes.noDots hdots, fun b hb => hdecodes.clean.2 b (List.mem_append_right _ hb)⟩
    obtain ⟨rest, hrest⟩ := hbelow
    exact ⟨percentDecode rest, by rw [← hrest, percentDecode_append hpercent]⟩

end

end Policy

def documentUrl : Url Unit := ⟨"https://o/f/%41", "https", (), "", none, none, ascii "/f/%41"⟩

theorem document_is_contained : Contained (ascii "/f/") (ascii "/f/A") :=
  (@admitted_path_is_contained Unit _
    (fun text => if text = documentUrl.asStr then some documentUrl else none)
    ⟨documentUrl, ascii "/f/", 1⟩ [] ⟨documentUrl.asStr, 1⟩ ⟨documentUrl, 1⟩
    (fun text url h _ => by
      rw [← Option.some.inj (Option.ite_none_right_eq_some.mp h).2, NoDots]
      decide)
    (by decide) rfl [.percentDecode]).2

end FileBelt.Egress
