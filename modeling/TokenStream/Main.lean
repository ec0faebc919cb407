/-
The command line program.

Everything here talks to the world: it opens what the request names, hands over what is read piece by
piece, and performs the acts that a piece leads to before it reads on.  Where the pieces are cut
makes no difference for the acts, only for how long they wait.  What reads filters is a library of
its own, so the program is given a reader for them.

* `Script.readOnto` — one piece of an open file;
* `Act.perform` — one act, performed;
* `Pause.play` — a run over an open file;
* `program` — the program.
-/

import TokenStream.Command.Streaming

set_option relaxedAutoImplicit false
set_option autoImplicit false

namespace TokenStream

/-- The number and the wording that the operating system gave to an error. -/
def SystemError.ofIOError : IO.Error → SystemError
  | .alreadyExists _ code details => ⟨code.toNat, details⟩
  | .otherError code details => ⟨code.toNat, details⟩
  | .resourceBusy code details => ⟨code.toNat, details⟩
  | .resourceVanished code details => ⟨code.toNat, details⟩
  | .unsupportedOperation code details => ⟨code.toNat, details⟩
  | .hardwareFault code details => ⟨code.toNat, details⟩
  | .unsatisfiedConstraints code details => ⟨code.toNat, details⟩
  | .illegalOperation code details => ⟨code.toNat, details⟩
  | .protocolError code details => ⟨code.toNat, details⟩
  | .timeExpired code details => ⟨code.toNat, details⟩
  | .interrupted _ code details => ⟨code.toNat, details⟩
  | .noFileOrDirectory _ code details => ⟨code.toNat, details⟩
  | .invalidArgument _ code details => ⟨code.toNat, details⟩
  | .permissionDenied _ code details => ⟨code.toNat, details⟩
  | .resourceExhausted _ code details => ⟨code.toNat, details⟩
  | .inappropriateType _ code details => ⟨code.toNat, details⟩
  | .noSuchThing _ code details => ⟨code.toNat, details⟩
  | .unexpectedEof => ⟨0, "end of file"⟩
  | .userError message => ⟨0, message⟩

/-- A piece that has been read, and how it ended. -/
def Script.ofPiece (piece : ByteArray) (ending : Script) : Script :=
  if piece.isEmpty then ending else .bytes piece.toList :: ending

/-- Reads on behind a piece, up to the blank that ends a word.  An open file waits until it has all
bytes that it is asked for, so it is asked for one at a time. -/
partial def Script.readOnto (file : IO.FS.Stream) (piece : ByteArray) (inWord : Bool) :
    IO Script := do
  match ← (file.read 1).toBaseIO with
  | .error e => return .ofPiece piece [.fault (.ofSystem (.ofIOError e))]
  | .ok read =>
      match read.toList with
      | [] => return .ofPiece piece [.endOfInput]
      | b :: _ =>
          let blank := isBlank (Char.ofUInt8 b)
          if inWord && blank then return .ofPiece (piece.push b) []
          else Script.readOnto file (piece.push b) (inWord || !blank)

/-- Opens what an invocation reads. -/
def Invocation.open (i : Invocation) : IO (Except SystemError IO.FS.Stream) := do
  match i.path? with
  | none => return .ok (← IO.getStdin)
  | some path =>
      match ← (IO.FS.Handle.mk path .read).toBaseIO with
      | .ok file => return .ok (.ofHandle file)
      | .error e => return .error (.ofIOError e)

/-- Performs one act; a log event is shown if the filter lets it through. -/
def Act.perform (f : Filter) : Act → IO Unit
  | .print line => do
      IO.println line
      (← IO.getStdout).flush
  | .complain line => IO.eprintln line
  | .log event => if f.shows event then IO.eprintln event.line else return

/-- Goes on with a run over an open file, piece by piece. -/
partial def Pause.play (i : Invocation) (f : Filter) (file : IO.FS.Stream) (p : Pause) :
    IO Nat := do
  let events ← Script.readOnto file .empty false
  let (acts, p') := (p.extend events).resume i
  acts.forM (Act.perform f)
  if events.any ReadEvent.ends then
    let (acts, exitCode) := p'.finish i
    acts.forM (Act.perform f)
    return exitCode
  else Pause.play i f file p'

/-- Performs an invocation. -/
def Invocation.perform (i : Invocation) (f : Filter) : IO Nat := do
  match ← i.open with
  | .error e =>
      let outcome := i.run (.error e)
      outcome.acts.forM (Act.perform f)
      return outcome.exitCode
  | .ok file =>
      Act.perform f (.log (.tokenizing i.sourceName))
      Pause.play i f file (.opening [])

/-- The exit code of a program that was given up. -/
def abortCode : UInt32 := 101

/-- Runs the program on a command line. -/
def program (reader : FilterReader) (arguments : List String) : IO UInt32 := do
  match Request.ofArguments arguments with
  | .run i =>
      match reader.initial (← IO.getEnv "RUST_LOG") i.level with
      | some f => return .ofNat (← i.perform f)
      | none => return abortCode
  | request =>
      let outcome := request.outcome fun _ => .ok (.ofBytes [])
      outcome.acts.forM (Act.perform .silent)
      return .ofNat outcome.exitCode

end TokenStream
