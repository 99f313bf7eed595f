import Blktap.Tapdisk.Stats
import Mathlib.Data.List.TakeWhile

/-!
# Log files and their buffers (`tapdisk-logfile.c`, `tapdisk-utils.c`)
-/

namespace Blktap.Tapdisk.Logfile
open Lib

def newline : UInt8 := 0x0a

def identSize : Nat := 33

def pathMax : Nat := 128

def lineSize : Nat := 1024

def Inside (c : Cursor) : Prop := c.pos ≤ c.size

def pidText (pid : UInt32) : Text := ascii "[" ++ decimal pid.toNat ++ ascii "]"

section Ident
variable (name : Text) (pid : UInt32) (mem : Nat → UInt8)

def identName : Cursor := ⟨0, (identSize + 2 ^ 64 - wouldBe (pidText pid)) % 2 ^ 64, 0, mem⟩

def identPid : Cursor := { (identName pid mem).print name with size := identSize }

def tapdiskSyslogIdent : Cursor := (identPid name pid mem).print (pidText pid)

structure IdentRight : Prop where
  first : Inside (identName pid mem) ∧ (identName pid mem).size ≤ identSize
  second : Inside (identPid name pid mem)
  ended : ∃ i < identSize, (tapdiskSyslogIdent name pid mem).mem i = 0

end Ident

section Path

def cString (size : Nat) (mem : Nat → UInt8) : Text := (load mem 0 size).takeWhile (· ≠ 0)

def pathText (dir ident suffix : Text) (pid : UInt32) : Text :=
  dir ++ ascii "/" ++ ident ++ ascii "." ++ decimal pid.toNat ++ suffix

def nameCall (size : Nat) (mem : Nat → UInt8) : Cursor := ⟨0, min size pathMax, 0, mem⟩

def tapdiskLogfileName (size : Nat) (mem : Nat → UInt8) (text : Text) : Nat → UInt8 :=
  ((nameCall size mem).print text).mem

def strncpy (dest : Nat → UInt8) (text : Text) (n i : Nat) : UInt8 := if i < n then text.getD i 0 else dest i

structure TdLogfile where
  path : Nat → UInt8
  ended : ∃ i < pathMax, path i = 0

def openPath (mem : Nat → UInt8) (text : Text) : Nat → UInt8 := tapdiskLogfileName pathMax mem text

def renamePath (log : TdLogfile) (newpath : Nat → UInt8) (renamed : Bool) : Nat → UInt8 :=
  if cString pathMax log.path = cString (pathMax + 1) newpath then log.path
  else if pathMax < (cString (pathMax + 1) newpath).length then log.path
  else if renamed then strncpy log.path (cString (pathMax + 1) newpath) pathMax
  else log.path

def tapdiskLogfileRename (log : TdLogfile) (mem : Nat → UInt8) (text : Text) (renamed : Bool) : Nat → UInt8 :=
  renamePath log (tapdiskLogfileName (pathMax + 1) mem text) renamed

end Path

section Line

structure Moment where
  mon : Fin 12
  mday : Fin 32
  hour : Fin 24
  min : Fin 60
  sec : Fin 61
  usec : Fin 1000000

def digit (n : Nat) : UInt8 := UInt8.ofNat (48 + n % 10)

def two (n : Nat) : Text := [digit (n / 10), digit n]

def spaced (n : Nat) : Text := if n < 10 then [space, digit n] else two n

def months : List String :=
  ["Jan", "Feb", "Mar", "Apr", "May", "Jun", "Jul", "Aug", "Sep", "Oct", "Nov", "Dec"]

def strftime (at' : Moment) : Text :=
  ascii (months.getD at'.mon "") ++ [space] ++ spaced at'.mday ++ [space] ++ two at'.hour ++ ascii ":" ++ two at'.min ++
    ascii ":" ++ two at'.sec

def strftv (at' : Moment) : Text :=
  ascii "[" ++ two at'.hour ++ ascii ":" ++ two at'.min ++ ascii ":" ++ two at'.sec ++ ascii "." ++
    (digit (at'.usec / 1000 / 100) :: two (at'.usec / 1000)) ++ ascii "]"

def stamp (at' : Moment) : Text := strftime at' ++ ascii ": " ++ strftv at' ++ ascii " "

variable (at' : Moment) (message : Text) (mem : Nat → UInt8)

def lineStart : Cursor := ⟨0, lineSize, 0, mem⟩

def stampCalls : List Cursor :=
  let first := (lineStart mem).print (strftime at')
  let second := first.print (ascii ": ")
  [lineStart mem, first, second, second.print (strftv at')]

def messageCall : Cursor :=
  [strftime at', ascii ": ", strftv at', ascii " "].foldl Cursor.print (lineStart mem)

def newlineCall : Cursor := (messageCall at' mem).print message

def lastPrinted : Nat := (newlineCall at' message mem).pos - 1

def bare : Bool := (newlineCall at' message mem).mem (lastPrinted at' message mem) != newline

def lineEnd : Cursor :=
  if bare at' message mem then (newlineCall at' message mem).print [newline] else newlineCall at' message mem

def line : Text := load (lineEnd at' message mem).mem 0 (lineEnd at' message mem).pos

/-- What `tapdisk_logfile_vprintf` returns: `fwrite` counts one item, or none. -/
def tapdiskLogfileVprintf (written : Bool) (ferror : Nat) : Int :=
  if (if written then 1 else 0) = (lineEnd at' message mem).pos then (lineEnd at' message mem).pos else -ferror

def stripped : Text := if message.getLast? = some newline then message.dropLast else message

/-- The calls keep to the buffer, one line goes out, and the length is returned when it was written. -/
structure LineRight (written : Bool) (ferror : Nat) : Prop where
  calls : ∀ c ∈ stampCalls at' mem, Inside c
  place : Inside (messageCall at' mem)
  ending : bare at' message mem = true → Inside (newlineCall at' message mem)
  last : lastPrinted at' message mem < lineSize
  output : (lineEnd at' message mem).pos ≤ lineSize
  one : ∃ body, line at' message mem = body ++ [newline] ∧ newline ∉ body ∧ body <+: stamp at' ++ stripped message
  result : written = true → tapdiskLogfileVprintf at' message mem written ferror = (lineEnd at' message mem).pos

end Line

structure PathArgs where
  dir : Text
  ident : Text
  suffix : Text
  pid : UInt32

def PathArgs.text (args : PathArgs) : Text := pathText args.dir args.ident args.suffix args.pid

inductive Call
  | ident (name : Text) (pid : UInt32) (mem : Nat → UInt8)
  | opening (args : PathArgs) (mem : Nat → UInt8)
  | rename (log : TdLogfile) (args : PathArgs) (mem : Nat → UInt8) (renamed : Bool)
  | vprintf (file : Bool) (at' : Moment) (message : Text) (mem : Nat → UInt8) (written : Bool) (ferror : Nat)

structure PathRight (size : Nat) (mem path : Nat → UInt8) : Prop where
  call : Inside (nameCall size mem) ∧ (nameCall size mem).size ≤ size
  ended : ∃ i < pathMax, path i = 0

def Call.Right : Call → Prop
  | .ident name pid mem => IdentRight name pid mem
  | .opening args mem => PathRight pathMax mem (openPath mem args.text)
  | .rename log args mem renamed => PathRight (pathMax + 1) mem (tapdiskLogfileRename log mem args.text renamed)
  | .vprintf file at' message mem written ferror => file = true → LineRight at' message mem written ferror

/-- The message has no newline but at its end, and its line fits with the NUL; or it is no `int` long and is dropped. -/
def MessageFits (message : Text) : Prop :=
  intMax < message.length ∨ newline ∉ stripped message ∧ (stripped message).length + 34 ≤ lineSize

def Call.Fits : Call → Prop
  | .ident name _ _ => name.length ≤ identSize
  | .opening .. => True
  | .rename .. => True
  | .vprintf file _ message _ written _ => file = true → written = false ∧ MessageFits message

section Text
variable {n : Nat} {at' : Moment} {message : Text}

theorem digit_ne (n : Nat) : digit n ≠ newline := by
  unfold digit newline
  intro same
  have bytes := congrArg UInt8.toNat same
  rw [UInt8.toNat_ofNat', Nat.mod_eq_of_lt (by omega)] at bytes
  change 48 + n % 10 = 10 at bytes
  omega

theorem spaced_length (n : Nat) : (spaced n).length = 2 := by
  unfold spaced
  split <;> rfl

theorem spaced_ne (n : Nat) : newline ∉ spaced n := by
  have first := (digit_ne (n / 10)).symm
  have second := (digit_ne n).symm
  unfold spaced two
  split
  · simp [second]
    decide
  · simp [first, second]

theorem month_fine : ∀ mon : Fin 12,
    (ascii (months.getD mon "")).length = 3 ∧ newline ∉ ascii (months.getD mon "") := by
  decide

theorem stamp_length (at' : Moment) : (stamp at').length = 32 := by
  have month := (month_fine at'.mon).1
  simp only [stamp, strftime, strftv, two, List.length_append, month, spaced_length, List.length_cons, List.length_nil]
  rfl

theorem stamp_fine (at' : Moment) : newline ∉ stamp at' := by
  have month := (month_fine at'.mon).2
  have digits := fun n => (digit_ne n).symm
  have colon : newline ∉ ascii ":" := by decide
  have colons : newline ∉ ascii ": " := by decide
  have left : newline ∉ ascii "[" := by decide
  have dot : newline ∉ ascii "." := by decide
  have right : newline ∉ ascii "]" := by decide
  have blank : newline ∉ ascii " " := by decide
  have blank' : newline ≠ space := by decide
  simp only [stamp, strftime, strftv, two, List.mem_append, List.mem_cons, List.not_mem_nil, month, spaced_ne, digits,
    colon, colons, left, dot, right, blank, blank', or_false, not_false_eq_true]

theorem decimal_length (pid : UInt32) : (decimal pid.toNat).length ≤ 10 := by
  have small := pid.toNat_lt
  rw [decimal, List.length_map]
  exact (Nat.length_toDigits_le_iff (by omega) (by omega)).mpr (by omega)

theorem pidText_length (pid : UInt32) : (pidText pid).length ≤ 12 := by
  have digits := decimal_length pid
  simp only [pidText, List.length_append]
  change 1 + (decimal pid.toNat).length + 1 ≤ 12
  omega

end Text

theorem print_terminated (c : Cursor) (text : Text) (room : c.pos < c.size) (small : c.base + c.size ≤ intMax) :
    ∃ i < c.size, (c.print text).mem (c.base + i) = 0 := by
  have place : (c.base + c.pos) % 2 ^ 64 = c.base + c.pos := Nat.mod_eq_of_lt (by unfold intMax at small; omega)
  have rest : (c.size + 2 ^ 64 - c.pos) % 2 ^ 64 = c.size - c.pos := by unfold intMax at small; omega
  have length : (text.take (c.size - c.pos - 1)).length ≤ c.size - c.pos - 1 := List.length_take_le _ _
  refine ⟨c.pos + (text.take (c.size - c.pos - 1)).length, by omega, ?_⟩
  simp only [Cursor.print, place, rest, snprintf, if_neg (show c.size - c.pos ≠ 0 by omega), ← Nat.add_assoc]
  rw [store_inside (by simp)]
  simp

section Ident
variable {name : Text} {pid : UInt32} {mem : Nat → UInt8}

theorem identName_size (pid : UInt32) (mem : Nat → UInt8) :
    (identName pid mem).size = identSize - (pidText pid).length := by
  have short := pidText_length pid
  have would : wouldBe (pidText pid) = (pidText pid).length := if_pos (by unfold intMax; omega)
  simp only [identName, would]
  unfold identSize
  omega

theorem identPid_mem : (identPid name pid mem).mem = ((identName pid mem).print name).mem := by
  simp only [identPid]

theorem ident_right_iff : IdentRight name pid mem ↔ name.length ≤ identSize := by
  have short := pidText_length pid
  have size := identName_size pid mem
  constructor
  · intro right
    by_contra long
    have inside : (0 + wouldBe name) % 2 ^ 64 ≤ identSize := right.second
    unfold wouldBe at inside
    unfold identSize at inside long
    unfold intMax at inside
    split at inside <;> omega
  · intro fits
    have would : wouldBe name = name.length := if_pos (by unfold identSize at fits; unfold intMax; omega)
    have place : (identPid name pid mem).pos = name.length := by
      change (0 + wouldBe name) % 2 ^ 64 = _
      unfold identSize at fits
      omega
    refine ⟨⟨Nat.zero_le _, by omega⟩, by unfold Inside; rw [place]; exact fits, ?_⟩
    have whole : 0 + (identSize - (pidText pid).length) ≤ identSize := by omega
    by_cases full : name.length = identSize
    · obtain ⟨i, small, nul⟩ := print_terminated (identName pid mem) name
        (by rw [size]; unfold identSize; change 0 < _; omega) (by rw [size]; exact Nat.le_trans whole (by decide))
      refine ⟨i, by omega, ?_⟩
      have kept : (tapdiskSyslogIdent name pid mem).mem i = (identPid name pid mem).mem i := by
        have none : (identSize + 2 ^ 64 - (identPid name pid mem).pos) % 2 ^ 64 = 0 := by rw [place, full]; rfl
        change store _ _ (snprintf ((identSize + 2 ^ 64 - (identPid name pid mem).pos) % 2 ^ 64) _) i = _
        rw [none]
        simp [snprintf]
      rw [show (identName pid mem).base + i = i from Nat.zero_add i] at nul
      rw [kept, identPid_mem]
      exact nul
    · obtain ⟨i, small, nul⟩ := print_terminated (identPid name pid mem) (pidText pid)
        (by rw [place]; change _ < identSize; omega) (show 0 + identSize ≤ intMax by decide)
      rw [show (identPid name pid mem).base + i = i from Nat.zero_add i] at nul
      exact ⟨i, small, nul⟩

end Ident

section Path
variable {size : Nat} {mem : Nat → UInt8} {text : Text} {args : PathArgs}

theorem name_terminated (size : Nat) (mem : Nat → UInt8) (text : Text) (pos : 0 < size) :
    ∃ i < pathMax, tapdiskLogfileName size mem text i = 0 := by
  have least : 0 < min size pathMax := Nat.lt_min.mpr ⟨pos, by decide⟩
  have bound : min size pathMax ≤ pathMax := Nat.min_le_right _ _
  obtain ⟨i, inside, nul⟩ := print_terminated (nameCall size mem) text least
    (by change 0 + min size pathMax ≤ intMax; unfold pathMax at bound ⊢; unfold intMax; omega)
  exact ⟨i, Nat.lt_of_lt_of_le inside bound, (congrArg _ (Nat.zero_add i)).symm.trans nul⟩

theorem name_inside : Inside (nameCall size mem) ∧ (nameCall size mem).size ≤ size :=
  ⟨Nat.zero_le _, Nat.min_le_left _ _⟩

theorem cString_length {n i : Nat} (inside : i < n) (nul : mem i = 0) (whole : n ≤ size) :
    (cString size mem).length ≤ i := by
  by_contra longer
  have here : i < (cString size mem).length := by omega
  have loaded : i < (load mem 0 size).length := by rw [load_length]; omega
  have cut : cString size mem <+: load mem 0 size := List.takeWhile_prefix _
  have same : (cString size mem)[i] = (load mem 0 size)[i] := cut.getElem here
  have member := List.getElem_mem here
  have nonzero := List.mem_takeWhile_imp member
  rw [same] at nonzero
  simp [load, nul] at nonzero

theorem rename_terminated (log : TdLogfile) (renamed : Bool) :
    ∃ i < pathMax, tapdiskLogfileRename log mem text renamed i = 0 := by
  obtain ⟨i, small, nul⟩ := name_terminated (pathMax + 1) mem text (by omega)
  have short := cString_length small nul (Nat.le_succ pathMax)
  unfold tapdiskLogfileRename renamePath
  split_ifs
  · exact log.ended
  · exact log.ended
  · refine ⟨i, small, ?_⟩
    rw [strncpy, if_pos small, List.getD_eq_getElem?_getD, List.getElem?_eq_none short]
    rfl
  · exact log.ended

end Path

section Line
variable {at' : Moment} {message : Text} {mem : Nat → UInt8} {written : Bool} {ferror : Nat}

theorem stamped : (lineStart mem).Printed (stamp at') (messageCall at' mem) :=
  ⟨_, by simp [stamp, List.append_assoc], rfl⟩

theorem printed : (lineStart mem).Printed (stamp at' ++ message) (newlineCall at' message mem) :=
  stamped.append Cursor.Printed.one

theorem start_fits {n : Nat} (room : n ≤ lineSize) : (lineStart mem).Fits n :=
  ⟨(by decide : 0 + lineSize ≤ intMax), (Nat.zero_add n).le.trans room⟩

theorem start_room : (lineStart mem).pos < (lineStart mem).size := by
  change 0 < lineSize
  decide

theorem start_full {text : Text} (full : text.length = lineSize) :
    (lineStart mem).pos + text.length = (lineStart mem).size :=
  (Nat.zero_add _).trans full

theorem start_end : (lineStart mem).base + (lineStart mem).size - 1 = 1024 - 1 := by
  change 0 + lineSize - 1 = _
  decide

theorem newline_ne : newline ≠ 0 := by
  decide

theorem inside_of_printed {text : Text} {c : Cursor} (printed : (lineStart mem).Printed text c)
    (room : text.length ≤ lineSize) : Inside c := by
  unfold Inside
  rw [printed.same.2, printed.pos (start_fits room)]
  exact (Nat.zero_add _).le.trans room

theorem calls_inside : ∀ c ∈ stampCalls at' mem, Inside c := by
  have whole := stamp_length at'
  simp only [stamp, List.length_append] at whole
  have first : (lineStart mem).Printed (strftime at') _ := Cursor.Printed.one
  have second := first.append (@Cursor.Printed.one _ (ascii ": "))
  have third := second.append (@Cursor.Printed.one _ (strftv at'))
  have size : lineSize = 1024 := rfl
  intro c member
  simp only [stampCalls, List.mem_cons, List.not_mem_nil, or_false] at member
  rcases member with rfl | rfl | rfl | rfl
  · exact Nat.zero_le _
  · exact inside_of_printed first (by omega)
  · exact inside_of_printed second (by rw [List.length_append]; omega)
  · exact inside_of_printed third (by simp only [List.length_append]; omega)

theorem messageCall_pos : (messageCall at' mem).pos = 32 := by
  rw [stamped.pos (start_fits (by rw [stamp_length]; decide)), stamp_length]
  rfl

theorem newlineCall_pos (short : message.length ≤ intMax) :
    (newlineCall at' message mem).pos = 32 + message.length := by
  change ((messageCall at' mem).pos + wouldBe message) % 2 ^ 64 = _
  rw [messageCall_pos, wouldBe, if_pos short]
  unfold intMax at short
  omega

theorem newlineCall_back (long : intMax < message.length) : (newlineCall at' message mem).pos = 31 := by
  change ((messageCall at' mem).pos + wouldBe message) % 2 ^ 64 = _
  rw [messageCall_pos, wouldBe, if_neg (Nat.not_le.mpr long)]
  rfl

theorem newlineCall_size : (newlineCall at' message mem).base = 0 ∧ (newlineCall at' message mem).size = lineSize :=
  printed.same

theorem newlineCall_load (room : message.length + 33 ≤ lineSize) :
    load (newlineCall at' message mem).mem 0 (32 + message.length) = stamp at' ++ message := by
  have length : (stamp at' ++ message).length = 32 + message.length := by rw [List.length_append, stamp_length]
  have loaded := (@printed at' message mem).fits (start_fits (by rw [length]; omega))
  rw [length] at loaded
  exact loaded.1

theorem last_of_load {n : Nat} {text : Text} {place : Nat → UInt8} (loaded : load place 0 n = text) (pos : 0 < n) :
    text.getLast? = some (place (n - 1)) := by
  rw [← loaded, List.getLast?_eq_getElem?, load_length]
  simp [load, List.getElem?_range (show n - 1 < n by omega)]

theorem bare_eq (room : message.length + 33 ≤ lineSize) :
    bare at' message mem = true ↔ message.getLast? ≠ some newline := by
  have short : message.length ≤ intMax := by
    have size : lineSize ≤ intMax := by decide
    omega
  have last := last_of_load (@newlineCall_load at' message mem room) (by omega)
  rw [List.getLast?_append] at last
  unfold bare lastPrinted
  rw [newlineCall_pos short, bne_iff_ne]
  cases ending : message.getLast? with
  | some c =>
      rw [ending] at last
      rw [← Option.some.inj last]
      simp
  | none =>
      rw [ending, Option.none_or] at last
      have other : (newlineCall at' message mem).mem (32 + message.length - 1) ≠ newline := by
        intro same
        exact stamp_fine at' (same ▸ List.mem_of_getLast? last)
      exact iff_of_true other (by simp)

theorem stripped_cases (message : Text) :
    message.getLast? = some newline ∧ message = stripped message ++ [newline] ∨
      message.getLast? ≠ some newline ∧ stripped message = message := by
  unfold stripped
  split_ifs with ending
  · exact Or.inl ⟨ending, (List.dropLast_append_getLast? newline ending).symm⟩
  · exact Or.inr ⟨ending, rfl⟩

theorem lineEnd_bare (room : message.length + 33 ≤ lineSize) (ending : message.getLast? ≠ some newline) :
    (lineStart mem).Printed (stamp at' ++ message ++ [newline]) (lineEnd at' message mem) := by
  rw [lineEnd, if_pos ((bare_eq room).mpr ending)]
  exact printed.append Cursor.Printed.one

theorem line_eq (room : (stripped message).length + 34 ≤ lineSize) :
    (lineEnd at' message mem).pos = (stripped message).length + 33 ∧
      line at' message mem = stamp at' ++ stripped message ++ [newline] := by
  have size : lineSize ≤ intMax := by decide
  unfold line
  rcases stripped_cases message with ⟨ending, whole⟩ | ⟨ending, whole⟩
  · have length : message.length = (stripped message).length + 1 := by
      conv_lhs => rw [whole]
      simp
    have fits : message.length + 33 ≤ lineSize := by omega
    have still : lineEnd at' message mem = newlineCall at' message mem :=
      if_neg fun bare => (bare_eq fits).mp bare ending
    have pos := @newlineCall_pos at' message mem (by omega)
    rw [still, pos, newlineCall_load fits, List.append_assoc, ← whole]
    exact ⟨by omega, rfl⟩
  · rw [whole] at room ⊢
    have length : (stamp at' ++ message ++ [newline]).length = message.length + 33 := by
      simp only [List.length_append, stamp_length, List.length_singleton]
      omega
    have printed := @lineEnd_bare at' message mem (by omega) ending
    have pos := printed.pos (start_fits (by omega))
    have loaded := (printed.fits (start_fits (by omega))).1
    rw [length] at pos loaded
    change _ = 0 + _ at pos
    rw [Nat.zero_add] at pos
    rw [pos]
    exact ⟨rfl, loaded⟩

theorem line_back (long : intMax < message.length) :
    bare at' message mem = true ∧ (lineEnd at' message mem).pos = 32 ∧
      line at' message mem = (stamp at').dropLast ++ [newline] := by
  have back := @newlineCall_back at' message mem long
  obtain ⟨base, size⟩ := @newlineCall_size at' message mem
  have stamped := (@stamped at' mem).fits (start_fits (by rw [stamp_length]; decide))
  have whole : load (messageCall at' mem).mem 0 32 = stamp at' := by
    have loaded := stamped.1
    rwa [stamp_length] at loaded
  have kept : load (newlineCall at' message mem).mem 0 31 = (stamp at').dropLast := by
    have same : load (newlineCall at' message mem).mem 0 31 = load (messageCall at' mem).mem 0 31 := by
      have place : ((messageCall at' mem).base + (messageCall at' mem).pos) % 2 ^ 64 = 32 := by
        rw [messageCall_pos, Cursor.Printed.same Logfile.stamped |>.1]
        rfl
      simp only [newlineCall, Cursor.print, place]
      exact load_store_before (by omega)
    rw [same, ← whole, @load_add _ _ 0 31 1]
    simp [load]
  have isBare : bare at' message mem = true := by
    have last := last_of_load kept (by omega)
    unfold bare lastPrinted
    rw [back, bne_iff_ne]
    intro same
    rw [same] at last
    exact stamp_fine at' ((List.dropLast_sublist _).subset (List.mem_of_getLast? last))
  have fits : (newlineCall at' message mem).Fits ([newline].length + 1) :=
    ⟨by rw [base, size]; decide, by rw [back, size]; decide⟩
  have pos := Cursor.Fits.print_pos fits.first
  obtain ⟨stands, others⟩ := Cursor.Printed.fits Cursor.Printed.one fits
  rw [back, base] at stands
  rw [back] at pos
  refine ⟨isBare, ?_, ?_⟩
  · rw [lineEnd, if_pos isBare, pos]
    rfl
  · have same : load ((newlineCall at' message mem).print [newline]).mem 0 31 =
        load (newlineCall at' message mem).mem 0 31 :=
      load_congr fun i _ small => others i (Or.inl (by rw [base, back]; omega))
    rw [line, lineEnd, if_pos isBare, pos]
    exact load_add.trans (congrArg₂ _ (same.trans kept) stands)

theorem fits_right (fits : MessageFits message) : LineRight at' message mem false ferror := by
  have size : lineSize = 1024 := rfl
  have calls := @calls_inside at' mem
  have place : Inside (messageCall at' mem) := inside_of_printed stamped (by rw [stamp_length]; decide)
  rcases fits with long | ⟨one, room⟩
  · obtain ⟨-, pos, whole⟩ := @line_back at' message mem long
    have back := @newlineCall_back at' message mem long
    refine ⟨calls, place, fun _ => ?_, ?_, by omega, ⟨_, whole, ?_, ?_⟩, nofun⟩
    · unfold Inside
      rw [back, newlineCall_size.2]
      decide
    · unfold lastPrinted
      omega
    · exact fun member => stamp_fine at' ((List.dropLast_sublist _).subset member)
    · exact (List.dropLast_prefix _).trans (List.prefix_append _ _)
  · obtain ⟨pos, whole⟩ := @line_eq at' message mem room
    have length : message.length ≤ (stripped message).length + 1 := by
      rcases stripped_cases message with ⟨-, whole⟩ | ⟨-, whole⟩
      · conv_lhs => rw [whole]
        simp
      · rw [whole]
        omega
    have next := @newlineCall_pos at' message mem (by unfold intMax; omega)
    refine ⟨calls, place, fun _ => ?_, ?_, by omega, ⟨_, whole, ?_, List.prefix_refl _⟩, nofun⟩
    · unfold Inside
      rw [next, newlineCall_size.2]
      omega
    · unfold lastPrinted
      omega
    · simp only [List.mem_append, stamp_fine, one, or_self, not_false_eq_true]

theorem right_fits (right : LineRight at' message mem written ferror) : MessageFits message := by
  have size : lineSize = 1024 := rfl
  have ints : lineSize ≤ intMax := by decide
  by_cases long : intMax < message.length
  · exact Or.inl long
  have pos := @newlineCall_pos at' message mem (by omega)
  have last := right.last
  unfold lastPrinted at last
  have length : (stamp at' ++ message).length = message.length + 32 := by
    rw [List.length_append, stamp_length, Nat.add_comm]
  have room : message.length + 33 ≤ lineSize := by
    by_contra full
    have exactly : message.length = 992 := by omega
    -- the NUL at the end of the buffer is no newline, and the next place is behind the buffer
    have nul := (@printed at' message mem).full start_room (start_fits (by omega)) (start_full (by omega))
    rw [start_end] at nul
    have bare : bare at' message mem = true := by
      unfold bare lastPrinted
      rw [pos, exactly, nul]
      decide
    have output := right.output
    rw [lineEnd, if_pos bare] at output
    change ((newlineCall at' message mem).pos + 1) % 2 ^ 64 ≤ _ at output
    omega
  have fits : (stripped message).length + 34 ≤ lineSize := by
    by_contra full
    rcases stripped_cases message with ⟨-, whole⟩ | ⟨ending, whole⟩
    · have longer := congrArg List.length whole
      rw [List.length_append, List.length_singleton] at longer
      omega
    · rw [whole] at full
      -- the newline fills the buffer and gives its place to the NUL
      have filled := @lineEnd_bare at' message mem room ending
      have all : (stamp at' ++ message ++ [newline]).length = 1024 := by
        rw [List.length_append, length, List.length_singleton]
        omega
      have nul := filled.full start_room (start_fits (by omega)) (start_full all)
      have ends : (lineEnd at' message mem).pos = 1024 :=
        (filled.pos (start_fits (by omega))).trans ((Nat.zero_add _).trans all)
      obtain ⟨body, one, -⟩ := right.one
      have end' := last_of_load one (by rw [ends]; omega)
      rw [start_end] at nul
      rw [ends, nul, List.getLast?_concat, Option.some.injEq] at end'
      exact newline_ne end'
  obtain ⟨body, whole, fine, -⟩ := right.one
  rw [(@line_eq at' message mem fits).2] at whole
  rw [← (List.append_inj' whole rfl).1] at fine
  exact Or.inr ⟨fun member => fine (List.mem_append_right _ member), fits⟩

theorem not_written (fits : MessageFits message) :
    tapdiskLogfileVprintf at' message mem true ferror ≠ (lineEnd at' message mem).pos := by
  have long : 1 < (lineEnd at' message mem).pos := by
    rcases fits with long | ⟨-, room⟩
    · rw [(line_back long).2.1]
      omega
    · rw [(line_eq room).1]
      omega
  unfold tapdiskLogfileVprintf
  rw [if_pos rfl, if_neg (by omega)]
  omega

end Line

/-- **Buffers of the log.** The calls keep to their buffers and do what they should exactly for the names and messages
that fit, and no line that is written is reported with its length. -/
theorem call_right_iff (call : Call) : call.Right ↔ call.Fits := by
  cases call with
  | ident name pid mem => exact ident_right_iff
  | opening args mem => exact iff_of_true ⟨name_inside, name_terminated pathMax mem args.text (by decide)⟩ trivial
  | rename log args mem renamed => exact iff_of_true ⟨name_inside, rename_terminated log renamed⟩ trivial
  | vprintf file at' message mem written ferror =>
      constructor
      · intro right file
        have fits := right_fits (right file)
        refine ⟨?_, fits⟩
        cases written with
        | false => rfl
        | true => exact absurd ((right file).result rfl) (not_written fits)
      · intro fits file
        obtain ⟨rfl, short⟩ := fits file
        exact fits_right short

def midnight : Moment := ⟨0, 1, 0, 0, 0, 0⟩

theorem short_returns_zero : ¬∀ call : Call, call.Right := by
  intro all
  have right := all (.vprintf true midnight (ascii "up") (fun _ => 0) true 0) rfl
  exact absurd (right.result rfl) (not_written (Or.inr (by decide)))

end Blktap.Tapdisk.Logfile
