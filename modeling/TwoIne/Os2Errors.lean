/-! The OS/2 return codes the modelled calls answer with. -/

namespace TwoIne

/-- Return codes of the control program calls. -/
inductive ApiRet where
  | noError
  | errorInvalidFunction
  | errorFileNotFound
  | errorPathNotFound
  | errorTooManyOpenFiles
  | errorAccessDenied
  | errorInvalidHandle
  | errorNotEnoughMemory
  | errorInvalidData
  | errorInvalidParameter
  | errorMaxThrdsReached
  | errorThreadNotTerminated
  | errorInvalidThreadid
  | errorCannotMake
  | errorOpenFailed
  | errorDiskFull
  | errorFilenameExcedRange
  | errorNotDosDisk
  | errorBadEnvironment
  | errorTimeout
  | errorSemBusy
  | errorAlreadyPosted
  | errorAlreadyReset
  | errorInvalidOrdinal
  | errorInvalidName
  | errorInvalidFrequency
  | errorInvalidDrive
  | errorBufferOverflow
  | errorDriveLocked
  | errorNoMoreFiles
  | errorNoMoreSearchHandles
  | errorEasDidntFit
  | errorInvalidTargetHandle
  | errorMrMidNotFound
  | errorMrInvMsgfFormat
  | errorVioRow
  | errorVioCol
  | errorVioInvalidHandle
  deriving DecidableEq, Repr

end TwoIne
