import LANScan.Application
import LANScan.DeviceViewController
import LANScan.HackerTerminal
import LANScan.LiveAnswers
import LANScan.PingScan
import LANScan.ReactiveCocoa.BindInterleaved
import LANScan.ReactiveCocoa.BindStreams
import LANScan.ReactiveCocoa.CombineLatestWith
import LANScan.ReactiveCocoa.MainThread
import LANScan.ReactiveCocoa.SubscriptionCalls
import LANScan.ReplyMatching
import LANScan.Screen
import LANScan.TCPClient
import LANScan.WiFiCheck
