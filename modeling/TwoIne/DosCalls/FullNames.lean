import TwoIne.Lib2ine.MountPoints

/-! The full OS/2 names of files: those of modules, and those that a program asks for. -/

namespace TwoIne

/-- A path of the host as it is written for OS/2, always on the drive C:. -/
def driveCName (real : Name) : Name := 'C' :: ':' :: os2Separators real

/-- The OS/2 path of a file that is there. -/
def makeOS2Path (realpath : Name → Option Name) (fname : Name) : Option Name :=
  (realpath fname).map driveCName

/-- The full name of a file, as far as the buffer has room for it. -/
def queryPathInfoFullName (realpath : Name → Option Name) (unixPath : Name) (cbInfoBuf : Nat) :
    Except ApiRet Name :=
  let real := (realpath unixPath).getD unixPath
  if cbInfoBuf ≤ real.length + 3 then .error .errorBufferOverflow
  else .ok (driveCName real)

end TwoIne
