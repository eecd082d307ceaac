import Ccb.PipeRefine
/-!
# Fidelity — what one side reads is what the other side wrote

`stream_fidelity` is about every run of two endpoints over segment files whose file operations succeed and that never
rolls a segment log past index `2 ^ 32 - 1`.  `wrap_replays` (`Ccb.SegWrap`) is what such a roll does.
-/
namespace Ccb
namespace Fstun

variable {crc : List UInt8 → UInt32}

/-- **The stream from `S` to `R`**: the bytes `R`'s Reads returned begin those `S`'s Writes reported, `next` on the
direction returns no error, and at an end of stream that no `Write` overlapped nothing is missing. -/
structure Fidelity (crc : List UInt8 → UInt32) (S R : Conn) (d : SegDir) : Prop where
  begins   : R.returned <+: S.written
  clean    : R.shut = false → ∀ io : SegIo, io.reopen = true →
    (d.next crc io).2 ≠ .corrupt ∧ (d.next crc io).2 ≠ .badRoll
  complete : .eof ∈ R.reads → S.raced = false → R.returned = S.written

theorem Went.clean {log : List Frame} {pos pos' : Nat} {t : Turn} (h : Went log pos t pos') :
    t ≠ .corrupt ∧ t ≠ .badRoll := by
  cases h with
  | wait h => rcases h with rfl | rfl | rfl | rfl <;> exact ⟨(fun h => by cases h), (fun h => by cases h)⟩
  | frame _ => exact ⟨(fun h => by cases h), (fun h => by cases h)⟩

theorem Fidelity.of_sim {s : Pipe (segFiles crc)} {u : Pipe fifo} (hsim : FileSim s u) (r : Role)
    (hinv : PipeInv (u.conn r).core (u.conn r.peer).core (u.dir r) (u.dir r.peer)) :
    Fidelity crc (s.conn r) (s.conn r.peer) (s.dir r) := by
  rw [hsim.conn] at hinv
  refine ⟨?_, fun hsh io hio => ?_, fun heof hr => ?_⟩
  · exact (List.prefix_append _ _).trans hinv.stream.begins
  · have hd := hsim.dirs r
    rw [hsh] at hd
    obtain ⟨pos', hw, -⟩ := hd.turn hio
    exact hw.clean
  · -- The Read in progress holds nothing after the end.
    have hat : (s.conn r.peer).core.atEOF = true := by
      show decide (ReadResult.eof ∈ _) = true
      exact decide_eq_true heof
    have hheld : (s.conn r.peer).rd.held = [] := ((hinv.ended.atEOF hat).2 hr).2
    have hall := hinv.ended.all hinv.stream hat hr
    change (s.conn r.peer).returned ++ (s.conn r.peer).rd.held = (s.conn r).written at hall
    rw [hheld, List.append_nil] at hall
    exact hall

/-- **Stream fidelity**, for any parameters of the two sides, in local and in network mode. -/
theorem stream_fidelity (crc : List UInt8 → UInt32) (p : Role → Params) (idle : Role → Nat) (netFS : Role → Bool)
    (ls : List (Label (segFiles crc))) (s : Pipe (segFiles crc)) (hio : ∀ l ∈ ls, SegIo.Smooth l.io)
    (hw : Machine.Meets Pipe.step NoWrap (Pipe.startFiles crc p idle netFS) ls)
    (hr : Machine.run Pipe.step (Pipe.startFiles crc p idle netFS) ls = some s) (r : Role) :
    Fidelity crc (s.conn r) (s.conn r.peer) (s.dir r) := by
  obtain ⟨u, hsim, hinv⟩ := fileSim_of_run hio hw hr
  exact .of_sim hsim r (hinv r)

/-! ## A run -/

/-- Parameters that roll at every frame. -/
def tiny : Params := ⟨1, 9223372036854775807, 1, one_segment_pos, by decide, by decide, one_frame_pos, one_frame_le⟩

/-- The labels of a pipe whose checksums are all zero. -/
abbrev Step := Label (segFiles (fun _ => 0))

def Step.initiator (a : Act) (reveal : List (Nat × Nat)) : Step := ⟨.initiator, a, ({ reveal := reveal } : SegIo)⟩
def Step.acceptor (a : Act) (reveal : List (Nat × Nat)) : Step := ⟨.acceptor, a, ({ reveal := reveal } : SegIo)⟩

def tinyStart (netFS : Bool) : Pipe (segFiles (fun _ => 0)) :=
  Pipe.startFiles (fun _ => 0) (fun _ => tiny) (fun _ => 0) (fun _ => netFS)

/-- Both handshakes. -/
def greeting : List Step :=
  [.initiator (.hand (.openW true)) [], .initiator (.hand (.syn true)) [], .acceptor (.hand (.openW true)) [],
   .acceptor (.hand (.syn true)) [], .acceptor (.hand (.turn .again 0)) [(0, 1000)],
   .acceptor (.hand (.turn (.frame tiny.syn) 0)) [], .initiator (.hand (.turn .again 0)) [(0, 1000)],
   .initiator (.hand (.turn (.frame tiny.syn) 0)) []]

/-- A `Write` of one byte, and the acceptor's `Read` of it. -/
def delivery : List Step :=
  [.initiator (.write (.call [7])) [], .initiator (.write (.go true)) [], .initiator (.write (.go true)) [],
   .initiator (.write (.go true)) [], .acceptor (.recv .go) [], .acceptor (.recv (.turn .again 0)) [],
   .acceptor (.recv (.turn .again 0)) [], .acceptor (.recv (.turn .again 0)) [(1, 1000)],
   .acceptor (.recv (.turn (.frame ⟨frameDATA, 0, 1, 0, [7]⟩) 0)) [], .acceptor (.recv .go) [],
   .acceptor (.recv .go) [], .acceptor (.recv .go) [], .acceptor (.read (.call 1)) [],
   .acceptor (.read (.go true)) [], .acceptor (.read (.go true)) [], .acceptor (.read (.go true)) []]

/-- The initiator's `Close` up to its FIN, and the acceptor's `Read` that meets it. -/
def goodbye : List Step :=
  [.initiator (.close .call) [], .initiator (.close (.go true)) [], .acceptor (.recv (.turn .again 0)) [],
   .acceptor (.recv (.turn .again 0)) [], .acceptor (.recv (.turn .again 0)) [(2, 1000)],
   .acceptor (.recv (.turn (.frame ⟨frameFIN, 0, 2, 1, []⟩) 0)) [], .acceptor (.recv .go) [], .acceptor (.recv .go) [],
   .acceptor (.read (.call 1)) [], .acceptor (.read (.go true)) []]

theorem stream_fidelity_goodbye :
    (Machine.run Pipe.step (tinyStart true) (greeting ++ delivery ++ goodbye)).map
        (fun s => ((s.conn .acceptor).reads, (s.conn .initiator).raced)) = some ([.data [7], .eof], false) ∧
      ∀ s, Machine.run Pipe.step (tinyStart true) (greeting ++ delivery ++ goodbye) = some s →
        Fidelity (fun _ => 0) (s.conn .initiator) (s.conn .acceptor) (s.dir .initiator) := by
  refine ⟨by decide +kernel, fun s hs => ?_⟩
  exact stream_fidelity (fun _ => 0) (fun _ => tiny) (fun _ => 0) (fun _ => true) (greeting ++ delivery ++ goodbye) s
    (by decide +kernel) (by decide +kernel) hs .initiator

end Fstun
end Ccb
