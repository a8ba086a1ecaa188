import Atf.RemoteClient
import Mathlib.Data.List.TakeDrop

/-!
# The window of a file that one request gets (`utils_manager.cc`)

`GetFileContent` is asked for the bytes behind an offset, all of them or up to a maximum. The number of bytes left is
the length less the offset, computed on `unsigned long`: up to the end of the file this is exact, and the answer is
the window asked for (`getFileContent_of_le`). Behind the end it wraps, so that the answer is a buffer that was never
filled, or the error of an allocation of nearly `2 ^ 64` bytes.
-/

namespace Atf
open Lua

/-- The bytes behind the offset, cut to `max_size_content` unless that is 0. -/
def window (content : Bytes) (offset max_size_content : Nat) : Bytes :=
  if max_size_content = 0 then content.drop offset else (content.drop offset).take max_size_content

/-- The number of bytes left, as it is computed: `unsigned long file_len = ftell(file) - offset`. -/
def restLength (content : Bytes) (offset : Nat) : Nat := (((content.length : Int) - (offset : Int)) % 2 ^ 64).toNat

/-- An answer of the bytes behind the offset, and the offset of the next request, which is 0 at the end. -/
structure IsWindow (content : Bytes) (offset max_size_content : Nat) (answer : Bytes × Int) : Prop where
  data : answer.1 = window content offset max_size_content
  next : answer.2 = if content.length ≤ offset + answer.1.length then 0 else ((offset + answer.1.length : Nat) : Int)

variable {content : Bytes} {offset m : Nat}

theorem restLength_of_le (hlen : content.length < 2 ^ 63) (h : offset ≤ content.length) :
    restLength content offset = content.length - offset := by
  unfold restLength
  omega

theorem restLength_of_lt (hoffset : offset < 2 ^ 63) (h : content.length < offset) :
    restLength content offset = 2 ^ 64 - (offset - content.length) := by
  unfold restLength
  omega

theorem length_window : (window content offset m).length =
    if m = 0 then content.length - offset else min m (content.length - offset) := by
  unfold window
  split
  · rw [List.length_drop]
  · rw [List.length_take, List.length_drop]

/-- A window is what a read of its length at the offset gets. -/
theorem take_drop_length_window :
    (content.drop offset).take (window content offset m).length = window content offset m := by
  rw [length_window]
  unfold window
  split
  · exact List.take_of_length_le (List.length_drop ..).le
  · rw [← List.length_drop, ← List.take_eq_take_min]

/-- The size of the buffer. -/
def bufferSize (content : Bytes) (offset m : Nat) : Nat :=
  if m ≠ 0 then if m > restLength content offset then restLength content offset else m else restLength content offset

namespace ServerHost
variable {host : ServerHost} {file_path file_name : String}

theorem getFileContent_eq (hfile : host.file (joinPath file_path file_name) = some content) :
    host.getFileContent file_path file_name offset m =
      let size := bufferSize content offset m
      if !host.malloc size then ([], error_codes.FAILED)
      else
        let data := (content.drop offset).take size
        (data ++ List.replicate (size - data.length) host.uninit,
          if ((size : Int) + offset) % 2 ^ 64 = content.length then error_codes.SUCCESS
          else toLong (size + offset)) := by
  have hpos : (if (offset : Int) < 0 then content.length else (offset : Int).toNat) = offset := if_neg (by omega)
  simp only [getFileContent, hfile, hpos]
  rfl

theorem bufferSize_of_le (hlen : content.length < 2 ^ 63) (h : offset ≤ content.length) :
    bufferSize content offset m = (window content offset m).length := by
  rw [bufferSize, restLength_of_le hlen h, length_window]
  split <;> split <;> omega

theorem bufferSize_pos_of_lt (hoffset : offset < 2 ^ 63) (h : content.length < offset) :
    0 < bufferSize content offset m := by
  rw [bufferSize, restLength_of_lt hoffset h]
  split <;> try split
  all_goals omega

/-- Up to the end of the file the answer is the window asked for. -/
theorem getFileContent_of_le (hfile : host.file (joinPath file_path file_name) = some content)
    (hlen : content.length < 2 ^ 63) (hmalloc : host.malloc (window content offset m).length = true)
    (h : offset ≤ content.length) : IsWindow content offset m (host.getFileContent file_path file_name offset m) := by
  have hsize : (window content offset m).length ≤ content.length - offset := by
    rw [length_window]
    split <;> omega
  rw [getFileContent_eq hfile, bufferSize_of_le hlen h]
  dsimp only
  rw [hmalloc, take_drop_length_window, Nat.sub_self, List.replicate_zero, List.append_nil]
  rw [Bool.not_true, if_neg Bool.false_ne_true]
  refine ⟨rfl, ?_⟩
  dsimp only
  split
  · rw [if_pos (by omega)]
    rfl
  · rw [if_neg (by omega), toLong, Int.bmod_eq_of_le (by omega) (by omega)]
    omega

/-- Behind the end of the file it is a buffer with nothing of the file, or an error. -/
theorem getFileContent_of_lt (hfile : host.file (joinPath file_path file_name) = some content)
    (h : content.length < offset) :
    let answer := host.getFileContent file_path file_name offset m
    answer = ([], error_codes.FAILED) ∨ answer.1 = List.replicate (bufferSize content offset m) host.uninit := by
  rw [getFileContent_eq hfile]
  dsimp only
  split
  · exact .inl rfl
  · refine .inr ?_
    rw [List.drop_eq_nil_of_le h.le, List.take_nil]
    rfl

theorem not_isWindow_of_lt (hfile : host.file (joinPath file_path file_name) = some content)
    (hoffset : offset < 2 ^ 63) (h : content.length < offset) :
    ¬ IsWindow content offset m (host.getFileContent file_path file_name offset m) := by
  intro hw
  have hempty : (window content offset m).length = 0 := by
    rw [length_window]
    split <;> omega
  rcases getFileContent_of_lt hfile h with hfailed | hbuffer
  · have hnext := hw.next
    rw [hfailed] at hnext
    split at hnext
    · cases hnext
    · cases hnext
  · have hpos : 0 < bufferSize content offset m := bufferSize_pos_of_lt hoffset h
    have hlength := congrArg List.length hw.data
    rw [hbuffer, List.length_replicate, hempty] at hlength
    omega

/-- For a file whose windows can be allocated, the answer is the window and its next offset, and the length left is
computed without wrapping, exactly if the offset is not behind the end of the file. -/
theorem getFileContent_window_iff (hfile : host.file (joinPath file_path file_name) = some content)
    (hlen : content.length < 2 ^ 63) (hmalloc : ∀ size, size ≤ content.length → host.malloc size = true)
    (hoffset : offset < 2 ^ 63) (m : Nat) :
    (IsWindow content offset m (host.getFileContent file_path file_name offset m) ↔ offset ≤ content.length) ∧
      ((restLength content offset : Int) = content.length - offset ↔ offset ≤ content.length) := by
  have hsize : (window content offset m).length ≤ content.length := by
    rw [length_window]
    split <;> omega
  refine ⟨⟨fun hw => ?_, getFileContent_of_le hfile hlen (hmalloc _ hsize)⟩, ?_⟩
  · by_contra hgt
    exact not_isWindow_of_lt hfile hoffset (Nat.lt_of_not_le hgt) hw
  · constructor
    · intro hexact
      omega
    · intro hle
      rw [restLength_of_le hlen hle]
      omega

end ServerHost

/-- A server with one file, of four bytes, which cannot allocate more than a megabyte. -/
def smallHost : ServerHost := ⟨fun _ => some [1, 2, 3, 4], fun n => decide (n ≤ kMaxSizeData), 0⟩

theorem malloc_smallHost (size : Nat) (h : size ≤ 4) : smallHost.malloc size = true :=
  decide_eq_true (h.trans (by decide))

/-- Two bytes in the middle of the file. -/
theorem getFileContent_window_iff_middle :
    IsWindow [1, 2, 3, 4] 1 2 (smallHost.getFileContent "/var" "log" 1 2) := by
  have hfile : smallHost.file (joinPath "/var" "log") = some [1, 2, 3, 4] := rfl
  have hiff := (ServerHost.getFileContent_window_iff hfile (by decide) malloc_smallHost (by decide : 1 < 2 ^ 63) 2).1
  exact hiff.mpr (by decide)

/-- One byte behind the end, the answer is a buffer that nothing was read into, or an error. -/
theorem getFileContent_behind_end :
    smallHost.getFileContent "/var" "log" 5 3 = ([0, 0, 0], 8) ∧
      smallHost.getFileContent "/var" "log" 5 0 = ([], error_codes.FAILED) ∧
      ¬ IsWindow [1, 2, 3, 4] 5 3 (smallHost.getFileContent "/var" "log" 5 3) := by
  refine ⟨by decide, by decide, fun hw => ?_⟩
  have hdata := hw.data
  revert hdata
  decide

end Atf
