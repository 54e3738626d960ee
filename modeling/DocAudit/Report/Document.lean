/-
The report as a JSON document: the tool, the root and the extension, the
counters, the findings and the files that could not be read. Files are
named by their paths below the root.
-/
import DocAudit.Audit
import DocAudit.Json

namespace DocAudit

namespace Tool

/-- The name that reports give. -/
def name : String := "jccs"

/-- The version that reports give. -/
def version : String := "0.3.0"

end Tool

namespace Document

/-- The version of the document's layout. -/
def schemaVersion : Int := 1

/-- A finding. -/
def finding (d : Disk) (root : Path) (x : Diagnostic) : Except Failure Json := do
  let path ← d.reportedPath x.path root
  return .obj [("path", .str path), ("line", .int x.line), ("message", .str x.message)]

/-- A file that could not be read. -/
def unreadable (d : Disk) (root : Path) (u : Unreadable) : Except Failure Json := do
  let path ← d.reportedPath u.path root
  let reason ← u.fault.statedReason
  return .obj [("path", .str path), ("error", .str reason)]

/-- The whole document. -/
def ofAudit (d : Disk) (root : Path) (a : Audit) : Except Failure Json := do
  let findings ← a.diagnostics.mapM (finding d root)
  let failures ← a.unreadable.mapM (unreadable d root)
  return .obj
    [("schema_version", .int schemaVersion),
     ("tool", .obj [("name", .str Tool.name), ("version", .str Tool.version)]),
     ("root", .str root.text),
     ("extension", .str a.settings.extension),
     ("files_processed", .int a.totals.processed),
     ("files_with_error", .int a.totals.flagged),
     ("files_unreadable", .int a.totals.unreadable),
     ("total_diagnostics", .int a.totals.findings),
     ("percent", .int a.totals.percent),
     ("diagnostics", .arr findings),
     ("unreadable", .arr failures)]

/-- The document in writing. -/
def render (d : Disk) (root : Path) (a : Audit) : Except Failure String := do
  let document ← ofAudit d root a
  document.render

end Document

end DocAudit
