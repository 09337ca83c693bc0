import LineScript.Proofs.Command.Host

/-! # A tree of files

Writing to a name puts one entry into the store, at the path that the name leads to from the working
directory or from the root. What stands under any other path stays as it was. So a store is a host
as commands need it, wherever they work.
-/

namespace LineScript.Store

theorem withoutSlashes_eq_self {name : List Char} (plain : name.getLast? ≠ some '/') :
    withoutSlashes name = name := by
  cases name with
  | nil => rfl
  | cons c s =>
      have kept : s.reverse.dropWhile (· = '/') = s.reverse := by
        cases reversed : s.reverse with
        | nil => rfl
        | cons d t =>
            obtain rfl : s = t.reverse ++ [d] := by simpa using congrArg List.reverse reversed
            have other : d ≠ '/' := by
              rw [← List.cons_append, List.getLast?_concat] at plain
              simpa using plain
            exact List.dropWhile_cons_of_neg (by simpa using other)
      rw [withoutSlashes, kept, List.reverse_reverse]

section Put

variable {path other : Path} (entry : Entry) (store : Store)

theorem lookup_put_self : (store.put path entry).lookup path = some entry := by
  induction store with
  | nil => simp [put]
  | cons head rest ih =>
      obtain ⟨first, old⟩ := head
      rw [put]
      split
      · simp
      · next differ =>
          have miss : (path == first) = false := by simpa using Ne.symm differ
          rw [List.lookup_cons, miss]
          exact ih

theorem lookup_put_of_ne (differ : other ≠ path) :
    (store.put path entry).lookup other = store.lookup other := by
  have miss : (other == path) = false := by simpa using differ
  induction store with
  | nil => rw [put, List.lookup_cons, miss]
  | cons head rest ih =>
      obtain ⟨first, old⟩ := head
      rw [put]
      split
      · next same => rw [same, List.lookup_cons, List.lookup_cons, miss]
      · rw [List.lookup_cons, List.lookup_cons, ih]

theorem find?_put_self (inside : path ≠ []) : (store.put path entry).find? path = some entry := by
  cases path with
  | nil => exact absurd rfl inside
  | cons => exact lookup_put_self entry store

theorem find?_put_of_ne (differ : other ≠ path) :
    (store.put path entry).find? other = store.find? other := by
  cases other with
  | nil => rfl
  | cons => exact lookup_put_of_ne entry store differ

end Put

/-- The files of a store, as names lead to them from a working directory. -/
def files (origin : Path) (store : Store) : Files Path where
  place name := (store.locate origin name.toList).toOption
  holds := store.find?

variable {origin : Path} {store store' : Store} {name content : String}

theorem reads_of_readFrom (read : store.readFrom origin name = .ok content) :
    (store.files origin).Reads name content := by
  unfold readFrom at read
  cases located : store.locate origin name.toList with
  | error e => simp [located, bind, Except.bind] at read
  | ok path =>
      simp only [located, bind, Except.bind] at read
      split at read
      · cases read
      · cases read
      · next bytes found =>
          split at read
          · next text valid =>
              cases read
              obtain ⟨isText, ⟨⟩⟩ := Option.dite_none_right_eq_some.mp valid
              exact ⟨path, by simp [files, located, Except.toOption], found⟩
          · cases read

/-- A file that is written is put at the path that its name leads to. -/
theorem exists_replaces (written : store.write origin name content = .ok store') :
    ∃ path, (store.files origin).place name = some path ∧
      (store.files origin).Replaces (store'.files origin) path content := by
  unfold write at written
  cases located : store.locate origin (withoutSlashes name.toList) with
  | error e => simp [located, bind, Except.bind] at written
  | ok path =>
      simp only [located, bind, Except.bind] at written
      split at written
      · cases written
      · next plain =>
          rw [withoutSlashes_eq_self plain] at located
          split at written
          · cases written
          · next noDirectory =>
              cases written
              have inside : path ≠ [] := by
                rintro rfl
                exact noDirectory rfl
              refine ⟨path, by simp [files, located, Except.toOption], ?_⟩
              exact ⟨find?_put_self _ store inside, fun _ differ => find?_put_of_ne _ store differ⟩

section Run

variable {clock : Clock} {e : FileError}

theorem run_write_error (failed : store.write origin name content = .error e) :
    ((hostAt origin clock).write name content).run store = (.error e, store) := by
  simp [hostAt, failed]
  rfl

theorem run_write_ok (written : store.write origin name content = .ok store') :
    ((hostAt origin clock).write name content).run store = (.ok (), store') := by
  simp [hostAt, written]
  rfl

end Run

/-- A store does what is assumed of a host. -/
theorem lawful_hostAt (origin : Path) (clock : Clock) :
    (hostAt origin clock).Lawful (files origin) where
  read_kept _ _ := rfl
  read_text name store text read := reads_of_readFrom read
  exists_kept _ _ := rfl
  absent name store path absent leads := by
    replace absent : store.holds origin name = false := absent
    cases located : store.locate origin name.toList with
    | error e => simp [files, located, Except.toOption] at leads
    | ok path' =>
        obtain rfl : path' = path := by simpa [files, located, Except.toOption] using leads
        simpa [holds, located, files] using absent
  write_kept name text store e failed := by
    cases written : store.write origin name text with
    | error e' => rw [run_write_error written]
    | ok store' =>
        rw [run_write_ok written] at failed
        cases failed
  write_replaces name text store done_ := by
    cases written : store.write origin name text with
    | error e =>
        rw [run_write_error written] at done_
        cases done_
    | ok store' =>
        rw [run_write_ok written]
        exact exists_replaces written
  clock_kept _ _ _ := rfl
  print_kept _ _ := rfl
  printed _ _ := rfl

end LineScript.Store
