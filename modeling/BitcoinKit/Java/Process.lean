import BitcoinKit.Java.Step

/-! The manager over several processes. Besides the calls of the machine there are the delayed saves of
    its wallets and the end of the process:

        call      a step of the machine
        autosave  a wallet object that was told to save itself does so, at whatever later moment
        restart   a new manager over the files of the old one, told the same data directory

    A process that dies inside a call leaves the files as a call that throws there does: every write is
    next to a library call that may throw. So a death at any point is a failing call and a restart. -/

namespace BitcoinKit
open Schemes

inductive Happening where
  | call (label : Label)
  | autosave (lib : Lib) (ref : WalletRef)
  | restart

/-- bitcoinj saves a wallet object to the file it was told. -/
def autosave (lib : Lib) (ref : WalletRef) : Java Unit := do
  let w ← get
  match (w.wallets.cell ref).autosaveFile with
  | some f => saveToFile lib ref f
  | none => pure ()

/-- The manager before it is started, told its data directory. -/
def World.placed (files : Files) (directory : Option String) : World :=
  { World.initial files with dataDirectory := directory }

def World.restart (w : World) : World :=
  { World.initial w.files with dataDirectory := w.dataDirectory }

/-- One thing after another happens to the program. -/
def live (w : World) : Happening → World
  | .call label => step w label
  | .autosave lib ref => after (autosave lib ref w)
  | .restart => w.restart

end BitcoinKit
