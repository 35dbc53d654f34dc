import PenPlot.Plot.CommandFile
import PenPlot.Text.Blank

/-!
# Command files on devices that refuse

Nothing is known of the device: it may refuse a line whenever it likes, break off in the middle of it, and
take lines again later. What arrives is settled by its first refusal all the same. Up to there the lines
arrive one behind the other and are counted; of the refused line a part arrives; and from then on the device
is not asked again.
-/

namespace PenPlot

/-! ## Lines -/

namespace Decimal

open Text

theorem isBlank_of_mem_pointed {n places : Nat} {c : Char}
    (h : c ∈ (pointed n places).1 ∨ c ∈ (pointed n places).2) : isBlank c = false := by
  have hpadded : c ∈ List.replicate (places + 1 - (Nat.toDigits 10 n).length) '0' ++
      Nat.toDigits 10 n := by
    simp only [pointed, List.splitAt_eq] at h
    exact h.elim List.mem_of_mem_take List.mem_of_mem_drop
  rcases List.mem_append.1 hpadded with hzero | hdigit
  · rw [List.eq_of_mem_replicate hzero]
    decide
  · exact isBlank_of_isDigit (Nat.isDigit_of_mem_toDigits (by decide) (by decide) hdigit)

theorem isBlank_of_mem_joinPoint {whole fraction : List Char}
    (h : ∀ c, c ∈ whole ∨ c ∈ fraction → isBlank c = false) :
    ∀ c ∈ joinPoint whole fraction, isBlank c = false := by
  intro c hc
  rw [joinPoint] at hc
  split at hc
  · exact h c (.inl hc)
  · rcases List.mem_append.1 hc with hc | hc
    · exact h c (.inl hc)
    · rcases List.mem_cons.1 hc with rfl | hc
      · decide
      · exact h c (.inr hc)

theorem isBlank_of_mem_signed {sign : Float.Model.UnpackedFloat.Sign} {digits : List Char}
    (h : ∀ c ∈ digits, isBlank c = false) : ∀ c ∈ signed sign digits, isBlank c = false := by
  intro c hc
  cases sign with
  | positive => exact h c hc
  | negative =>
    rcases List.mem_cons.1 hc with rfl | hc
    · decide
    · exact h c hc

theorem isBlank_of_mem_format {finite : Nat → Int → List Char}
    (h : ∀ m e, ∀ c ∈ finite m e, isBlank c = false) (value : Float.Model.UnpackedFloat) :
    ∀ c ∈ (format finite value).toList, isBlank c = false := by
  cases value with
  | notANumber =>
    show ∀ c ∈ (String.ofList ['N', 'a', 'N']).toList, isBlank c = false
    simp only [String.toList_ofList, List.forall_mem_cons]
    exact ⟨by decide, by decide, by decide, List.forall_mem_nil _⟩
  | infinity sign =>
    have hinf : ∀ c ∈ ['i', 'n', 'f'], isBlank c = false := by
      simp only [List.forall_mem_cons]
      exact ⟨by decide, by decide, by decide, List.forall_mem_nil _⟩
    show ∀ c ∈ (String.ofList (signed sign ['i', 'n', 'f'])).toList, isBlank c = false
    rw [String.toList_ofList]
    exact isBlank_of_mem_signed hinf
  | zero sign =>
    show ∀ c ∈ (String.ofList (signed sign (finite 0 0))).toList, isBlank c = false
    rw [String.toList_ofList]
    exact isBlank_of_mem_signed (h 0 0)
  | finite sign m e =>
    show ∀ c ∈ (String.ofList (signed sign (finite m e))).toList, isBlank c = false
    rw [String.toList_ofList]
    exact isBlank_of_mem_signed (h m e)

/-- There is no blank in a number of a command file, nor in what stands there for no number. -/
theorem isBlank_of_mem_fixed {places : Nat} {x : Float} :
    ∀ c ∈ (fixed places x).toList, isBlank c = false := by
  refine isBlank_of_mem_format (fun m e => ?_) _
  exact isBlank_of_mem_joinPoint fun _ => isBlank_of_mem_pointed

end Decimal

/-! ## Devices -/

namespace Device

variable {σ ε : Type}

/-- The device takes the lines of the commands, one behind the other, and is in the last state then. -/
inductive Takes (device : Device σ ε) : List (PenCommand Float) → σ → σ → Prop
  | nil (state : σ) : device.Takes [] state state
  | cons {command : PenCommand Float} {commands : List (PenCommand Float)} {first next last : σ}
      (hline : device.write command.line first = (.written, next))
      (hlines : device.Takes commands next last) : device.Takes (command :: commands) first last

/-- The device takes the lines of the commands before, and of the failing one no more than a part. -/
def Refuses (device : Device σ ε) (before : List (PenCommand Float)) (failing : PenCommand Float)
    (first : σ) (taken : Nat) (fault : ε) (last : σ) : Prop :=
  ∃ middle, device.Takes before first middle ∧
    device.write failing.line middle = (.refused taken fault, last)

theorem Takes.exists_take {device : Device σ ε} {before : List (PenCommand Float)} {first last : σ}
    (h : device.Takes before first last) (rest : List (PenCommand Float)) {n : Nat}
    (hn : n ≤ before.length) : ∃ middle, device.Takes ((before ++ rest).take n) first middle := by
  induction h generalizing n with
  | nil state =>
    obtain rfl : n = 0 := Nat.le_zero.1 hn
    exact ⟨state, .nil state⟩
  | @cons command before first next last hline hlines ih =>
    cases n with
    | zero => exact ⟨first, .nil first⟩
    | succ n =>
      obtain ⟨middle, hmiddle⟩ := ih (Nat.le_of_succ_le_succ hn)
      exact ⟨middle, .cons hline hmiddle⟩

/-- Whatever the device does, there is a first refusal or none. -/
theorem takes_or_refuses (device : Device σ ε) (commands : List (PenCommand Float)) (first : σ) :
    (∃ last, device.Takes commands first last) ∨
      ∃ before failing after taken fault last, commands = before ++ failing :: after ∧
        device.Refuses before failing first taken fault last := by
  induction commands generalizing first with
  | nil => exact .inl ⟨first, .nil first⟩
  | cons command commands ih =>
    cases hanswer : device.write command.line first with
    | mk answer next =>
    cases answer with
    | refused taken fault =>
      exact .inr ⟨[], command, commands, taken, fault, next, rfl, first, .nil first, hanswer⟩
    | written =>
      obtain ⟨last, hlines⟩ | ⟨before, failing, after, taken, fault, last, rfl, middle, hbefore,
        hfailing⟩ := ih next
      · exact .inl ⟨last, .cons hanswer hlines⟩
      · exact .inr ⟨command :: before, failing, after, taken, fault, last, rfl, middle,
          .cons hanswer hbefore, hfailing⟩

end Device

/-! ## Files -/

namespace CommandFile

variable {σ ε : Type} {device : Device σ ε} {file : CommandFile σ ε}

theorem receive_sink (command : PenCommand Float) :
    (sink device).receive file command = file.write device command := by
  cases command <;> rfl

theorem write_of_written {command : PenCommand Float} {first next : σ}
    (hline : device.write command.line first = (.written, next)) (text : String) (lines : Nat) :
    write device ⟨first, text, lines, none⟩ command =
      ⟨next, text ++ String.ofList command.line, lines + 1, none⟩ := by
  simp only [write, hline]

theorem write_of_refused {command : PenCommand Float} {first last : σ} {taken : Nat} {fault : ε}
    (hline : device.write command.line first = (.refused taken fault, last)) (text : String)
    (lines : Nat) :
    write device ⟨first, text, lines, none⟩ command =
      ⟨last, text ++ String.ofList (command.line.take taken), lines, some fault⟩ := by
  simp only [write, hline]

/-- After a refusal nothing changes. -/
theorem receiveAll_of_fault {fault : ε} (hfault : file.fault = some fault)
    (commands : List (PenCommand Float)) : (sink device).receiveAll file commands = file := by
  induction commands with
  | nil => rfl
  | cons command commands ih =>
    have hwrite : file.write device command = file := by simp only [write, hfault]
    rw [Sink.receiveAll_cons, receive_sink, hwrite, ih]

/-- Lines that the device takes all arrive and are counted. -/
theorem receiveAll_of_takes {commands : List (PenCommand Float)} {first last : σ}
    (h : device.Takes commands first last) (text : String) (lines : Nat) :
    (sink device).receiveAll ⟨first, text, lines, none⟩ commands =
      ⟨last, text ++ String.ofList (commands.flatMap PenCommand.line), lines + commands.length,
        none⟩ := by
  induction h generalizing text lines with
  | nil state => simp
  | @cons command commands first next last hline hlines ih =>
    rw [Sink.receiveAll_cons, receive_sink, write_of_written hline, ih, List.flatMap_cons,
      String.ofList_append, String.append_assoc, List.length_cons, Nat.add_assoc, Nat.add_comm 1]

/-- Behind the lines that the device takes there is only the part of the line that it refuses. -/
theorem receiveAll_of_refuses {before : List (PenCommand Float)} {failing : PenCommand Float}
    {first last : σ} {taken : Nat} {fault : ε}
    (h : device.Refuses before failing first taken fault last) (after : List (PenCommand Float)) :
    (sink device).receiveAll { device := first } (before ++ failing :: after) =
      ⟨last, String.ofList (before.flatMap PenCommand.line ++ failing.line.take taken),
        before.length, some fault⟩ := by
  obtain ⟨middle, hbefore, hfailing⟩ := h
  rw [Sink.receiveAll_append, receiveAll_of_takes hbefore, Sink.receiveAll_cons, receive_sink,
    write_of_refused hfailing, receiveAll_of_fault rfl, String.ofList_append]
  simp

/-- Without a refusal the device has just the lines, and the file is finished by flushing the device. -/
theorem finish_of_takes {commands : List (PenCommand Float)} {start last : σ}
    (h : device.Takes commands start last) :
    let file := (sink device).receiveAll { device := start } commands
    device.Takes commands start file.device ∧
      file.lines = commands.length ∧
      file.text.toList = commands.flatMap PenCommand.line ∧
      file.finish device =
        (device.flush file.device).map fun stored => { file with device := stored } := by
  intro file
  have hfile : file = _ := receiveAll_of_takes h "" 0
  rw [hfile]
  refine ⟨h, by simp, by simp, ?_⟩
  rw [finish]
  cases device.flush last <;> rfl

/-- A device that may refuse what it likes, and commands for it. Before the first refusal the file counts
the commands, the device has just their lines, and finishing the file flushes the device. After the first
refusal, and whatever comes then, the device has the lines of the commands before, and of the refused line
no more than it has taken; only the lines before are counted, and finishing the file reports the refusal. -/
theorem written_until_refused (device : Device σ ε) (start : σ) (commands : List (PenCommand Float)) :
    let file (n : Nat) := (sink device).receiveAll { device := start } (commands.take n)
    (∀ command ∈ commands, ∃ x y,
      x = (Decimal.fixed 3 command.point.x).toList ∧ y = (Decimal.fixed 3 command.point.y).toList ∧
      (∀ c ∈ x ++ y, Text.isBlank c = false) ∧
      command.line =
        (if command.isDraw then 'D' else 'M') :: ' ' :: x ++ ' ' :: y ++ ['\n']) ∧
    ∃ before rest, commands = before ++ rest ∧
      (∀ n ≤ before.length,
        device.Takes (commands.take n) start (file n).device ∧
        (file n).lines = n ∧
        (file n).text.toList = (commands.take n).flatMap PenCommand.line ∧
        (file n).finish device =
          (device.flush (file n).device).map fun stored => { file n with device := stored }) ∧
      (rest = [] ∨ ∃ failing after taken fault last, rest = failing :: after ∧
        device.Refuses before failing start taken fault last ∧
        ∀ n > before.length,
          (file n).device = last ∧
          (file n).lines = before.length ∧
          (file n).text.toList =
            before.flatMap PenCommand.line ++ failing.line.take taken ∧
          (file n).finish device = .error fault) := by
  intro file
  have htaken {before rest : List (PenCommand Float)} (hcommands : commands = before ++ rest)
      {last : σ} (hbefore : device.Takes before start last) (n : Nat) (hn : n ≤ before.length) :
      device.Takes (commands.take n) start (file n).device ∧
        (file n).lines = n ∧
        (file n).text.toList = (commands.take n).flatMap PenCommand.line ∧
        (file n).finish device =
          (device.flush (file n).device).map fun stored => { file n with device := stored } := by
    obtain ⟨middle, hmiddle⟩ := hbefore.exists_take rest hn
    rw [← hcommands] at hmiddle
    obtain ⟨htakes, hlines, htext, hfinish⟩ := finish_of_takes hmiddle
    refine ⟨htakes, hlines.trans ?_, htext, hfinish⟩
    rw [List.length_take, hcommands, List.length_append]
    omega
  refine ⟨?_, ?_⟩
  · intro command _
    refine ⟨_, _, rfl, rfl, fun c hc => ?_, rfl⟩
    exact (List.mem_append.1 hc).elim (Decimal.isBlank_of_mem_fixed c)
      (Decimal.isBlank_of_mem_fixed c)
  · obtain ⟨last, hall⟩ | ⟨before, failing, after, taken, fault, last, hcommands, hrefuses⟩ :=
      device.takes_or_refuses commands start
    · have hcommands : commands = commands ++ [] := (List.append_nil commands).symm
      exact ⟨commands, [], hcommands, htaken hcommands hall, .inl rfl⟩
    · have ⟨middle, hbefore, _⟩ := hrefuses
      refine ⟨before, failing :: after, hcommands, htaken hcommands hbefore,
        .inr ⟨failing, after, taken, fault, last, rfl, hrefuses, fun n hn => ?_⟩⟩
      -- The refused line is among the first `n`, and what follows of them does not matter.
      have htake : commands.take n = before ++ failing :: after.take (n - before.length - 1) := by
        rw [hcommands, List.take_append, List.take_of_length_le (Nat.le_of_lt hn),
          List.take_cons (Nat.sub_pos_of_lt hn)]
      have hfile := receiveAll_of_refuses hrefuses (after.take (n - before.length - 1))
      rw [← htake] at hfile
      simp only [file, hfile, finish, String.toList_ofList, and_self]

/-- A device that breaks off in the second line and would take the third. -/
example (first second third : PenCommand Float) :
    let device : Device Nat :=
      { write := fun _ asked =>
          (if asked = 1 then .refused 4 .timedOut else .written, asked + 1)
        flush := .ok }
    let file := (sink device).receiveAll { device := 0 } [first, second, third]
    file.device = 2 ∧ file.lines = 1 ∧ file.fault = some .timedOut := by
  cases first <;> cases second <;> cases third <;> exact ⟨rfl, rfl, rfl⟩

end CommandFile

end PenPlot
