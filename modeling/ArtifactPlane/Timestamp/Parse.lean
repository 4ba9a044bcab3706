import ArtifactPlane.Decimal.Numeral
import ArtifactPlane.Text.Blank
import ArtifactPlane.Timestamp.Basic

/-!
Reading timestamps.  Beside the written form, blanks may stand before each number
and each mark, `T` may be small or a blank, numbers may lack leading zeros, a year
with a sign may have any number of digits, and the offset from Universal Time may
be `Z`, `UTC` or signed hours and minutes.  The first fault from left to right is
reported; whether the calendar has the date is asked last.
-/

namespace ArtifactPlane.Timestamp

/-- Why a text is not a timestamp. -/
inductive Fault where
  | outOfRange
  | impossible
  | invalid
  | tooShort
  | trailing
deriving DecidableEq, Repr

/-- The wording of a fault. -/
def Fault.message : Fault → String
  | .outOfRange => "input is out of range"
  | .impossible => "no possible date and time matching input"
  | .invalid => "input contains invalid characters"
  | .tooShort => "premature end of input"
  | .trailing => "trailing input"

/-- Reads from the front of a text and leaves the rest. -/
abbrev Reader := StateT (List Char) (Except Fault)

namespace Reader

/-- Pass over blanks. -/
def skipBlanks : Reader Unit := modify Text.trimStart

/-- The largest number that is read. -/
def largestNumber : Nat := 9223372036854775807

/-- A number of at least one digit, and of at most `width` digits if a width is given. -/
def number (width : Option Nat) : Reader Nat := do
  let cs ← get
  let ds := (match width with | some w => cs.take w | none => cs).takeWhile Numeral.isDigit
  if cs.isEmpty then throw .tooShort
  else if ds.isEmpty then throw .invalid
  else if largestNumber < Numeral.value ds then throw .outOfRange
  else
    set (cs.drop ds.length)
    return Numeral.value ds

/-- One given character. -/
def mark (c : Char) : Reader Unit := do
  match ← get with
  | [] => throw .tooShort
  | d :: rest => if d = c then set rest else throw .invalid

/-- A number of at most two digits between two bounds, after any blanks. -/
def field (low high : Nat) : Reader Nat := do
  skipBlanks
  let n ← number (some 2)
  if low ≤ n ∧ n ≤ high then return n else throw .outOfRange

/-- Years are kept in 32 bits with a sign. -/
def checkedYear (year : Int) : Reader Int :=
  if -2147483648 ≤ year ∧ year ≤ 2147483647 then return year else throw .outOfRange

/-- A year: four digits at most, or a sign and any number of digits. -/
def year : Reader Int := do
  skipBlanks
  match ← get with
  | '-' :: rest => set rest; checkedYear (-(← number none : Nat))
  | '+' :: rest => set rest; checkedYear (← number none : Nat)
  | _ => checkedYear (← number (some 4) : Nat)

/-- A date; whether the calendar has it is not asked. -/
def date : Reader Date := do
  let y ← year
  skipBlanks
  mark '-'
  let m ← field 1 12
  skipBlanks
  mark '-'
  return ⟨y, m, ← field 1 31⟩

/-- What stands between date and time of day. -/
def separator : Reader Unit := do
  match ← get with
  | [] => throw .tooShort
  | c :: rest => if c = 't' ∨ c = 'T' ∨ c = ' ' then set rest else throw .invalid

/-- The fraction of a second in nanoseconds; digits after the ninth are dropped. -/
def fraction : Reader Nat := do
  match ← get with
  | '.' :: rest =>
    set rest
    let digits := min 9 (rest.takeWhile Numeral.isDigit).length
    let n ← number (some 9)
    modify (·.dropWhile Numeral.isDigit)
    return n * Nat.pow 10 (9 - digits)
  | _ => return 0

/-- A time of day as whole seconds and nanoseconds.  Second 60 is a leap second. -/
def timeOfDay : Reader (Nat × Nat) := do
  let h ← field 0 23
  skipBlanks
  mark ':'
  let m ← field 0 59
  skipBlanks
  mark ':'
  let s ← field 0 60
  let nano ← fraction
  skipBlanks
  let whole := h * 3600 + m * 60
  if s = 60 then return (whole + 59, nanosPerSecond + nano) else return (whole + s, nano)

/-- Two characters, or one that takes more than one octet. -/
def pair : Reader (Char × Char) := do
  match ← get with
  | [] => throw .tooShort
  | [a] => if a.toNat < 128 then throw .tooShort else throw .invalid
  | a :: b :: rest =>
    set rest
    return (a, b)

/-- Hours of an offset. -/
def offsetHours : Reader Nat := do
  let (a, b) ← pair
  if Numeral.isDigit a ∧ Numeral.isDigit b then return Numeral.value [a, b] else throw .invalid

/-- Minutes of an offset. -/
def offsetMinutes : Reader Nat := do
  let (a, b) ← pair
  if Numeral.isDigit a ∧ Numeral.isDigit b then
    if '5' < a then throw .outOfRange else return Numeral.value [a, b]
  else throw .invalid

/-- Hours, any colons and blanks, and minutes, as seconds. -/
def offsetSeconds : Reader Int := do
  let h ← offsetHours
  modify (·.dropWhile fun c => c = ':' ∨ Text.isBlank c)
  let m ← offsetMinutes
  return (h : Int) * 3600 + (m : Int) * 60

/-- Whether a text begins with `UTC` in any case. -/
def beginsWithUtc : List Char → Bool
  | u :: t :: c :: _ => (u = 'U' ∨ u = 'u') ∧ (t = 'T' ∨ t = 't') ∧ (c = 'C' ∨ c = 'c')
  | _ => false

/-- The seconds by which the written time is ahead of Universal Time. -/
def offset : Reader Int := do
  let cs ← get
  if beginsWithUtc cs then
    set (cs.drop 3)
    return 0
  else
    match cs with
    | [] => throw .tooShort
    | c :: rest =>
      set rest
      if c = 'Z' ∨ c = 'z' then return 0
      else if c = '+' then offsetSeconds
      else if c = '-' ∨ c = '\u2212' then return -(← offsetSeconds)
      else throw .invalid

/-- Nothing but blanks may be left. -/
def finish : Reader Unit := do
  skipBlanks
  if (← get).isEmpty then return () else throw .trailing

/-- Date, seconds and nanoseconds of the time of day, and offset. -/
def written : Reader (Date × Nat × Nat × Int) := do
  let d ← date
  separator
  let (second, nano) ← timeOfDay
  let ahead ← offset
  finish
  return (d, second, nano, ahead)

end Reader

/-- Seconds in a day. -/
def secondsPerDay : Int := 86400

/-- The moment that a written date, time of day and offset name. -/
def resolve (d : Date) (second nano : Nat) (ahead : Int) : Except Fault Timestamp :=
  let moved := (second : Int) - ahead
  let day := d.toDays + moved / secondsPerDay
  if d.isValid = false ∨ secondsPerDay ≤ ahead ∨ ahead ≤ -secondsPerDay then .error .outOfRange
  else if (Date.ofDays day).isValid then .ok ⟨day, (moved % secondsPerDay).toNat, nano⟩
  else .error .impossible

/-- Read a timestamp. -/
def parse (text : String) : Except Fault Timestamp := do
  let ((d, second, nano, ahead), _) ← Reader.written text.toList
  resolve d second nano ahead

end ArtifactPlane.Timestamp
