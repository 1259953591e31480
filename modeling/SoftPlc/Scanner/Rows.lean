/-
# The rows of a device table

A line of a device table is a row unless it is blank or only a comment. An accepted table
has one device for each row, in the order of the lines, and each device holds what its row
says. No line of an accepted text is longer than the line buffer.
-/

import SoftPlc.Math.Collect
import SoftPlc.Math.Reader
import SoftPlc.Scanner.Config

namespace SoftPlc.Scanner

open SoftPlc.Math SoftPlc.Ipc

/-- Neither blank nor only a comment. -/
def isDeviceLine (line : List Char) : Bool := (content line).any fun char => !isSeparator char

theorem isDeviceLine_iff {line : List Char} :
    isDeviceLine line = true ↔ strtok isSeparator (content line) ≠ [] := by
  rw [Ne, strtok_eq_nil]
  simp [isDeviceLine]

/-- A table that lists the rows of some lines. -/
structure Listed (lines : List (List Char)) (cfg : ScannerConfig) : Prop where
  rows : List.Forall₂ Describes (lines.filter isDeviceLine) cfg.devices
  short : ∀ line ∈ lines, line.length ≤ lineMax

/-- One more line: its row is behind the others, if it is one. -/
theorem Listed.parseLine {lines : List (List Char)} {cfg next : ScannerConfig} {line : List Char}
    (h : Listed lines cfg) (hline : parseLine cfg line = .ok next) :
    Listed (lines ++ [line]) next := by
  obtain ⟨hshort, hcases⟩ := parseLine_cases hline
  constructor
  · rw [List.filter_append]
    rcases hcases with ⟨hempty, rfl⟩ | ⟨row, hdescribes, hrow⟩
    · have hskipped : isDeviceLine line = false := by
        rw [Bool.eq_false_iff, Ne, isDeviceLine_iff]
        exact not_not_intro hempty
      simpa [hskipped] using h.rows
    · have hdevice : isDeviceLine line = true := by
        obtain ⟨_, _, _, _, _, _, _, _, hfields, -⟩ := hdescribes
        rw [isDeviceLine_iff, hfields]
        exact List.cons_ne_nil _ _
      rw [hrow.devices_eq, List.filter_cons_of_pos hdevice, List.filter_nil]
      exact List.rel_append h.rows (.cons hdescribes .nil)
  · intro other hother
    rcases List.mem_append.mp hother with hbefore | hlast
    · exact h.short other hbefore
    · rw [List.mem_singleton.mp hlast]
      exact hshort

theorem eipScannerConfigParse_listed {text : List Char} {cfg : ScannerConfig}
    (hparse : eipScannerConfigParse text = .ok cfg) : Listed (textLines text) cfg := by
  unfold eipScannerConfigParse at hparse
  split at hparse
  · cases hparse
  · next final hlines =>
      split_ifs at hparse
      cases hparse
      have hstart : Listed [] ScannerConfig.empty := ⟨.nil, fun _ hline => by cases hline⟩
      exact parseLines_history (fun _ _ _ _ hlisted hline => hlisted.parseLine hline) hstart hlines

/-- What is known of each device by itself. -/
theorem Listed.device {lines : List (List Char)} {cfg : ScannerConfig} (h : Listed lines cfg)
    {row : DeviceRow} (hrow : row ∈ cfg.devices) :
    row.o2tRpiUs ≠ 0 ∧ row.t2oRpiUs ≠ 0 ∧ row.timeoutMultiplier ≤ 7 := by
  obtain ⟨line, -, hdescribes⟩ := exists_of_forall₂ h.rows hrow
  obtain ⟨_, _, _, _, _, _, _, _, -, hread⟩ := hdescribes
  exact ⟨hread.rpi_ne_zero, hread.t2oRpi_eq ▸ hread.rpi_ne_zero, parseU32_le hread.multiplier_eq⟩

end SoftPlc.Scanner
