import ShedKernel.Editor.SavedText
import ShedKernel.Foundation.NamedTable
import ShedKernel.Foundation.Service

/-! The file system as its callers see it, and what it is for: a table of named files. Both
answer the same requests. -/

set_option autoImplicit false

namespace ShedKernel.FileSystem

open Foundation Editor Memory

inductive FsRequest where
  | call (call : FsCall)
  | list

/-- The returned value, the calls of `kprintf` and the bytes of the file that were read. -/
structure FsReply where
  result : Option Nat
  said : Multiset KprintfCall
  got : List UInt8
  deriving DecidableEq

/-- The functions of `easyfs.c` and `editorSave` on the disk. -/
def FsRequest.perform (disk : Memory) : FsRequest → Memory × FsReply
  | .call (.create name) =>
      let done := fsCreateFile ⟨disk, []⟩ name
      (done.2.disk, ⟨some done.1, done.2.console, []⟩)
  | .call (.delete name) =>
      let done := fsDeleteFile ⟨disk, []⟩ name
      (done.2.disk, ⟨some done.1, done.2.console, []⟩)
  | .call (.write name memory buf size) =>
      let done := fsWriteFile ⟨disk, []⟩ name memory buf.toNat size.toNat
      (done.2.disk, ⟨some done.1, done.2.console, []⟩)
  | .call (.read name memory buf size) =>
      let done := fsReadFile disk name memory buf.toNat size.toNat
      (disk, ⟨some done.1, 0,
        if done.1 = minusOne then [] else bytesAt (done.2.behind buf.toNat) 0 (min size.toNat done.1)⟩)
  | .call (.save E stack) =>
      let done := (editorSave E ⟨disk, []⟩ stack).2
      (done.disk, ⟨none, done.console, []⟩)
  | .list =>
      let done := fsListFiles ⟨disk, []⟩
      (done.disk, ⟨none, done.console, []⟩)

/-- Files by their names. -/
abbrev FileTable := NamedTable (List UInt8) (List UInt8) maxDirEntries

namespace FileTable

def listLine (file : Σ _ : List UInt8, List UInt8) : KprintfCall :=
  ⟨"  %s (%d bytes)\n", [.text file.1, .number file.2.length]⟩

def listLines (files : FileTable) : Multiset KprintfCall :=
  if files.values.entries = 0 then {⟨"  (empty)\n", []⟩} else files.values.entries.map listLine

/-- What the callers may expect of the file system. -/
def serve (files : FileTable) : FsRequest → FileTable × FsReply
  | .call (.create name) =>
      if name.bytes ∈ files.values then
        (files, ⟨some minusOne, {⟨"easyfs: file '%s' already exists\n", [.text name.bytes]⟩}, []⟩)
      else if room : files.Room name.bytes then (files.put name.bytes [] room, ⟨some 0, 0, []⟩)
      else (files, ⟨some minusOne, {⟨"easyfs: root directory full\n", []⟩}, []⟩)
  | .call (.delete name) =>
      if name.bytes ∈ files.values then (files.erase name.bytes, ⟨some 0, 0, []⟩)
      else (files, ⟨some minusOne, {⟨"easyfs: file '%s' not found\n", [.text name.bytes]⟩}, []⟩)
  | .call (.write name memory buf size) =>
      if there : name.bytes ∈ files.values then
        (files.put name.bytes (bytesAt (memory.behind buf.toNat) 0 size.toNat)
            (NamedTable.room_of_mem there),
          ⟨some size.toNat, 0, []⟩)
      else (files, ⟨some minusOne, 0, []⟩)
  | .call (.read name _ _ size) =>
      match files.values.lookup name.bytes with
      | some content => (files, ⟨some content.length, 0, content.take size.toNat⟩)
      | none => (files, ⟨some minusOne, 0, []⟩)
  | .call (.save E _) =>
      if E.filename.bytes = [] then (files, ⟨none, 0, []⟩)
      else if room : files.Room E.filename.bytes then
        (files.put E.filename.bytes (savedText E.rows) room, ⟨none, 0, []⟩)
      else (files, ⟨none, {⟨"easyfs: root directory full\n", []⟩}, []⟩)
  | .list => (files, ⟨none, files.listLines, []⟩)

end FileTable

/-- Names fit a directory entry, and what `fs_write_file` writes fits a block and has a pointer. -/
def FsRequest.Fits : FsRequest → Prop
  | .call (.create name) => name.bytes.length < maxFilenameLen
  | .call (.write _ _ buf size) => buf ≠ 0 ∧ size.toNat < blockSize
  | .call (.save E _) => E.filename.bytes.length < maxFilenameLen
  | _ => True

end ShedKernel.FileSystem
