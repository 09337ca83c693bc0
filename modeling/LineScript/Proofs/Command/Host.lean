import LineScript.Command.Perform

/-! # What is assumed of a host

Nothing is assumed of how words and settings files are read. Of the files it is assumed that only a
write changes them, and that a write either replaces the whole content of the one file that its name
leads to or fails without effect. It is also assumed that the standard output can be written: a
command that has written its file and then cannot say so crashes.
-/

namespace LineScript

/-- The files of a system at one time, for any notion `φ` of which file is which. -/
structure Files (φ : Type) where
  /-- The file that a name leads to, whether it is there or not. -/
  place : String → Option φ
  /-- What there is. -/
  holds : φ → Option Entry

namespace Files

variable {φ : Type}

/-- A name leads to a file with the given text. -/
def Reads (files : Files φ) (name text : String) : Prop :=
  ∃ f, files.place name = some f ∧ files.holds f = some (.file text.toUTF8)

/-- The file `f` holds `text` now, and all else is as it was. -/
structure Replaces (before after : Files φ) (f : φ) (text : String) : Prop where
  here : after.holds f = some (.file text.toUTF8)
  elsewhere : ∀ other, other ≠ f → after.holds other = before.holds other

end Files

/-- What is assumed of a host whose states of type `σ` hold files. -/
structure Host.Lawful {σ φ : Type} (host : Host (StateM σ)) (files : σ → Files φ) : Prop where
  read_kept : ∀ name s, files ((host.read name).run s).2 = files s
  /-- What is read stands in the file. -/
  read_text : ∀ name s text, ((host.read name).run s).1 = .ok text → (files s).Reads name text
  exists_kept : ∀ name s, files ((host.exists? name).run s).2 = files s
  /-- Where nothing is seen there is no file to lose. -/
  absent : ∀ name s f, ((host.exists? name).run s).1 = false → (files s).place name = some f →
    (files s).holds f = none
  /-- A write that fails has no effect. -/
  write_kept : ∀ name text s e, ((host.write name text).run s).1 = .error e →
    files ((host.write name text).run s).2 = files s
  /-- A write that succeeds replaces the whole content. -/
  write_replaces : ∀ name text s, ((host.write name text).run s).1 = .ok () →
    ∃ f, (files s).place name = some f ∧
      (files s).Replaces (files ((host.write name text).run s).2) f text
  clock_kept : ∀ limits code s, files ((host.clock limits code).run s).2 = files s
  print_kept : ∀ text s, files ((host.print text).run s).2 = files s
  /-- The standard output can be written. -/
  printed : ∀ text s, ((host.print text).run s).1 = true

section Kept

variable {σ φ : Type} {host : Host (StateM σ)} {files : σ → Files φ}

theorem kept_bind {α β : Type} {act : StateM σ α} {next : α → StateM σ β} {s : σ}
    (kept : files (act.run s).2 = files s)
    (later : files ((next (act.run s).1).run (act.run s).2).2 = files (act.run s).2) :
    files ((act >>= next).run s).2 = files s :=
  later.trans kept

theorem Host.Lawful.run_print (lawful : host.Lawful files) (f : Finished) (s : σ) :
    ((f.print host).run s).1 = f ∧ files ((f.print host).run s).2 = files s := by
  have run : (f.print host).run s = (if ((host.print f.stdout).run s).1 then pure f
      else pure { f with exit := 101 } : StateM σ Finished).run ((host.print f.stdout).run s).2 :=
    rfl
  rw [run, lawful.printed, if_pos rfl]
  exact ⟨rfl, lawful.print_kept _ _⟩

end Kept

end LineScript
