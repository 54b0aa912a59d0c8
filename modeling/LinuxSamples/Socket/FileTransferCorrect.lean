import LinuxSamples.Socket.FileTransferProgress

set_option autoImplicit false

/-! # The file arrives

When a session ends at the end of the stream, the local file of the client is the file of the
server. -/

namespace LinuxSamples.FileTransfer

open LinuxSamples.Program LinuxSamples.Memory LinuxSamples.Network LinuxSamples.Socket

variable {c : Setting}

/-- The name typed in, followed by a newline. -/
theorem word_typed (name : FileName) : word (name.bytes ++ [10]) = name.bytes := by
  obtain ⟨b, rest, hbytes⟩ := List.exists_cons_of_ne_nil name.nonempty
  have hb : ¬ isspace b := name.noSpace b (by rw [hbytes]; exact List.mem_cons_self)
  have hdrop : (name.bytes ++ [10]).dropWhile (fun b => isspace b) = name.bytes ++ [10] := by
    rw [hbytes, List.cons_append, List.dropWhile_cons_of_neg (by simpa using hb)]
  have hstop : ([10] : List UInt8).takeWhile (fun b => ¬ isspace b) = [] := by decide
  rw [word, hdrop, List.takeWhile_append_of_pos, hstop, List.append_nil]
  intro a ha
  exact decide_eq_true (name.noSpace a ha)

theorem requestedName_typed {k : Nat} {name : FileName} (h : c.typed k = name.bytes ++ [10]) :
    requestedName c k = name.bytes := by
  rw [requestedName, h, word_typed, cstring_of_textual name.textual]

/-- **File transfer fidelity.** Whatever the sessions do and however the streams are cut: when the
    session of client `k` ends, its local file is the server's. -/
theorem file_transferred (c : Setting) (disk : Nat → Name → Option Content) (k : Nat)
    (name : FileName) (content : Content) (htyped : c.typed k = name.bytes ++ [10])
    (hfile : c.files name.bytes = some content) (w w' : World)
    (hreach : Reach (step c) (Assumed c) (start disk) w)
    (hend : Returns (step c (.receive k (some 0))) w () w') :
    w'.disk (c.directory k) name.bytes = some content := by
  have hname := requestedName_typed htyped
  obtain ⟨hphase, ⟨hflight, hclosed⟩, rfl⟩ := receive_end_ok.1 (step_returns.1 hend)
  obtain ⟨_, hcomplete⟩ := ((Invariant.of_reach hreach).follows k).complete hphase hflight hclosed
  have hcopy := hcomplete content (by rw [hname, hfile])
  rwa [copyOf, hname] at hcopy

/-- One file of three bytes, which every client asks for. -/
def smallSetting : Setting where
  files name := if name = [97] then some [1, 2, 3] else none
  typed _ := [97, 10]
  directory k := k

theorem file_transferred_small : ∃ w w',
    Reach (step smallSetting) (Assumed smallSetting) (start fun _ _ => some [7, 7, 7, 7]) w ∧
      Returns (step smallSetting (.receive 0 (some 0))) w () w' ∧ w'.disk 0 [97] = some [1, 2, 3] := by
  let w₀ := start fun _ _ => some [7, 7, 7, 7]
  have hidle : Assumed smallSetting w₀ (.connect 0) := fun j hj => absurd rfl hj.1
  have hconnect := Reach.one _ hidle
    (step_returns (c := smallSetting).2 (connect_ok.2 ⟨rfl, rfl⟩))
  have hactive : Phase.active ((w₀.set 0 { fresh with phase := .connected }).session 0).phase := by
    rw [set_session_self]
    decide
  have hword : ∀ j, (word (smallSetting.typed j)).length ≤ fileNameMaxSize := by
    intro j
    show (word [97, 10]).length ≤ fileNameMaxSize
    decide
  obtain ⟨w, w', hreach, hend⟩ := session_can_end hword (Invariant.of_reach hconnect) hactive
  have hreach' := hconnect.trans hreach
  exact ⟨w, w', hreach', hend, file_transferred smallSetting _ 0
    ⟨[97], by decide, by decide, by decide, List.forall_mem_singleton.2 (by decide)⟩ [1, 2, 3] rfl rfl
    w w' hreach' hend⟩

end LinuxSamples.FileTransfer
