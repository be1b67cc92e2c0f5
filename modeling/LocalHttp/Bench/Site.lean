import LocalHttp.Network

namespace LocalHttp.Bench

inductive Site
  | plain
  | nested
  | staleFile
  | staleSocket
  | directory
  | parentIsFile
  | tooLong
  deriving DecidableEq

namespace Site

def path : Site → String
  | .nested => "dir/a/b/s.sock"
  | .parentIsFile => "dir/f/s.sock"
  | .tooLong => "dir/" ++ String.ofList (List.replicate 120 'x')
  | _ => "dir/s.sock"

def files (s : Site) : FileTree :=
  let tree := ({} : FileTree).put ["dir"] .directory
  let names := FileTree.names s.path
  match s with
  | .staleFile => tree.put names .file
  | .staleSocket => tree.put names (.socket none)
  | .directory => tree.put names .directory
  | .parentIsFile => tree.put names.dropLast .file
  | _ => tree

end Site

end LocalHttp.Bench
